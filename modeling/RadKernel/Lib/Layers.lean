import Mathlib.Data.List.Pairwise
import Mathlib.Data.List.Sort
import Mathlib.Data.Finset.Card

/-!
# Layers drawn from the bottom up

Items with a height are drawn in the order of their heights. When the heights are distinct
there is one such order, whichever way it is found: by sorting, or by a search for the
lowest item that is not yet drawn.
-/

namespace RadKernel.Layers

open List

variable {ι κ : Type*} {height : ι → Int} {above : κ → Int} {l l' : List ι} {i j : ι} {b : Int}
  {n : Nat} {next : Int → Option ι} {f : ι → Option κ}

/-- The items sorted by height. -/
def bottomUp (height : ι → Int) (l : List ι) : List ι :=
  l.mergeSort fun i j => decide (height i ≤ height j)

/-- No two items of the list are at the same height. -/
def Distinct (height : ι → Int) (l : List ι) : Prop := l.Pairwise (height · ≠ height ·)

instance Distinct.decidable (height : ι → Int) (l : List ι) : Decidable (Distinct height l) :=
  inferInstanceAs (Decidable (l.Pairwise (height · ≠ height ·)))

/-- Each item is below the later ones. -/
def Rising (height : ι → Int) (l : List ι) : Prop := l.Pairwise (height · < height ·)

@[simp] theorem bottomUp_nil (height : ι → Int) : bottomUp height [] = [] := mergeSort_nil

theorem bottomUp_perm (height : ι → Int) (l : List ι) : (bottomUp height l).Perm l :=
  mergeSort_perm _ _

section
variable (h : Distinct height l)
include h

theorem Distinct.perm (hperm : l.Perm l') : Distinct height l' :=
  (hperm.pairwise_iff fun hne => Ne.symm hne).1 h

theorem Distinct.ne (hi : i ∈ l) (hj : j ∈ l) (hij : i ≠ j) : height i ≠ height j := by
  have hsymm : Std.Symm fun i j : ι => height i ≠ height j := ⟨fun _ _ hne => Ne.symm hne⟩
  exact List.Pairwise.forall h hi hj hij

theorem Distinct.bottomUp : Rising height (bottomUp height l) := by
  have hsorted : (Layers.bottomUp height l).Pairwise fun i j => decide (height i ≤ height j) :=
    pairwise_mergeSort (fun a b c hab hbc => by simp at *; omega) (fun a b => by simp; omega) _
  have hdistinct := h.perm (bottomUp_perm height l).symm
  refine (hsorted.and hdistinct).imp ?_
  rintro i j ⟨hle, hne⟩
  exact lt_of_le_of_ne (of_decide_eq_true hle) hne

end

section
variable (h : Rising height l)
include h

theorem Rising.filterMap
    (hf : ∀ i ∈ l, ∀ k, f i = some k → above k = height i) : Rising above (l.filterMap f) := by
  refine List.pairwise_filterMap.2 (h.imp_of_mem ?_)
  intro i j hi hj hlt k hk k' hk'
  rw [hf i hi k hk, hf j hj k' hk']
  exact hlt

theorem Rising.distinct : Distinct height l := h.imp fun hlt => ne_of_lt hlt

/-- There is one order from the bottom up. -/
theorem Rising.eq (h' : Rising height l') (hperm : l.Perm l') : l = l' :=
  hperm.eq_of_pairwise (fun _ _ _ _ hlt hgt => absurd hlt (not_lt_of_gt hgt)) h h'

theorem Rising.eq_bottomUp (hperm : l.Perm l') : l = bottomUp height l' :=
  h.eq (h.distinct.perm hperm).bottomUp (hperm.trans (bottomUp_perm height l').symm)

end

/-! ## Search -/

/-- The item found is a lowest one of those at `b` or above. -/
structure Least (height : ι → Int) (l : List ι) (b : Int) (found : Option ι) : Prop where
  lacks : found = none → ∀ i ∈ l, height i < b
  finds : ∀ i, found = some i →
    i ∈ l ∧ b ≤ height i ∧ ∀ j ∈ l, b ≤ height j → height i ≤ height j

theorem Least.nil : Least height [] b none := ⟨fun _ _ hi => (by cases hi), fun _ h => (by cases h)⟩

/-- An item below the start of the search changes nothing. -/
theorem Least.below {found : Option ι} (h : Least height l b found) (hlt : height i < b) :
    Least height (l ++ [i]) b found := by
  refine ⟨fun hnone k hk => ?_, fun j hj => ?_⟩
  · rcases List.mem_append.1 hk with hk | hk
    · exact h.lacks hnone k hk
    · rwa [List.mem_singleton.1 hk]
  · obtain ⟨hjl, hbj, hleast⟩ := h.finds j hj
    refine ⟨mem_append_left _ hjl, hbj, fun k hk hbk => ?_⟩
    rcases List.mem_append.1 hk with hk | hk
    · exact hleast k hk hbk
    · rw [List.mem_singleton.1 hk] at hbk
      omega

theorem Least.first (h : Least height l b none) (hb : b ≤ height i) :
    Least height (l ++ [i]) b (some i) := by
  refine ⟨fun hnone => (by cases hnone), ?_⟩
  rintro _ ⟨⟩
  refine ⟨by simp, hb, fun k hk hbk => ?_⟩
  rcases List.mem_append.1 hk with hk | hk
  · have := h.lacks rfl k hk
    omega
  · rw [List.mem_singleton.1 hk]

theorem Least.stay (h : Least height l b (some j)) (hle : height j ≤ height i) :
    Least height (l ++ [i]) b (some j) := by
  obtain ⟨hj, hbj, hleast⟩ := h.finds j rfl
  refine ⟨fun hnone => (by cases hnone), ?_⟩
  rintro _ ⟨⟩
  refine ⟨mem_append_left _ hj, hbj, fun k hk hbk => ?_⟩
  rcases List.mem_append.1 hk with hk | hk
  · exact hleast k hk hbk
  · rwa [List.mem_singleton.1 hk]

theorem Least.lower (h : Least height l b (some j)) (hb : b ≤ height i)
    (hlt : height i < height j) : Least height (l ++ [i]) b (some i) := by
  obtain ⟨hj, hbj, hleast⟩ := h.finds j rfl
  refine ⟨fun hnone => (by cases hnone), ?_⟩
  rintro _ ⟨⟩
  refine ⟨by simp, hb, fun k hk hbk => ?_⟩
  rcases List.mem_append.1 hk with hk | hk
  · exact le_trans hlt.le (hleast k hk hbk)
  · rw [List.mem_singleton.1 hk]

/-- The items found, each search starting above the last item. -/
def drain (height : ι → Int) (next : Int → Option ι) : Nat → Int → List ι
  | 0, _ => []
  | n + 1, b =>
    match next b with
    | none => []
    | some i => i :: drain height next n (height i + 1)

/-- There are fewer items above one from `b` on than from `b` on. -/
theorem card_above_lt [DecidableEq ι] (hj : j ∈ l) (hbj : b ≤ height j) :
    (l.toFinset.filter (height j + 1 ≤ height ·)).card <
      (l.toFinset.filter (b ≤ height ·)).card := by
  refine Finset.card_lt_card ⟨fun k hk => ?_, fun hsub => ?_⟩
  · simp only [Finset.mem_filter] at hk ⊢
    exact ⟨hk.1, by omega⟩
  · have := hsub (show j ∈ _ by simp [hj, hbj])
    simp only [Finset.mem_filter] at this
    omega

section Search

variable (hnext : ∀ i ∈ l, Least height l (height i + 1) (next (height i + 1)))

include hnext

theorem le_of_mem_drain : ∀ n b, Least height l b (next b) →
    ∀ i ∈ drain height next n b, i ∈ l ∧ b ≤ height i := by
  intro n
  induction n with
  | zero => intro b _ i hi; cases hi
  | succ n ih =>
    intro b h i hi
    rw [drain] at hi
    cases hfound : next b with
    | none => rw [hfound] at hi; cases hi
    | some j =>
      obtain ⟨hj, hb, -⟩ := h.finds j hfound
      rw [hfound] at hi
      rcases List.mem_cons.1 hi with rfl | hi
      · exact ⟨hj, hb⟩
      · obtain ⟨hil, hle⟩ := ih _ (hnext j hj) i hi
        exact ⟨hil, by omega⟩

theorem drain_rising : ∀ n b, Least height l b (next b) →
    Rising height (drain height next n b) := by
  intro n
  induction n with
  | zero => intro b _; exact List.Pairwise.nil
  | succ n ih =>
    intro b h
    rw [drain]
    cases hfound : next b with
    | none => exact List.Pairwise.nil
    | some j =>
      have hj := (h.finds j hfound).1
      refine List.Pairwise.cons (fun i hi => ?_) (ih _ (hnext j hj))
      have := (le_of_mem_drain hnext _ _ (hnext j hj) i hi).2
      omega

/-- With enough searches every item from the height on is found. -/
theorem mem_drain [DecidableEq ι] (hdistinct : Distinct height l) (hi : i ∈ l) :
    ∀ n b, Least height l b (next b) → b ≤ height i →
      (l.toFinset.filter (b ≤ height ·)).card ≤ n → i ∈ drain height next n b := by
  intro n
  induction n with
  | zero =>
    intro b _ hb hcard
    have hmem : i ∈ l.toFinset.filter (b ≤ height ·) := by simp [hi, hb]
    rw [Finset.card_eq_zero.1 (Nat.le_zero.1 hcard)] at hmem
    cases hmem
  | succ n ih =>
    intro b h hb hcard
    rw [drain]
    cases hfound : next b with
    | none => exact absurd (h.lacks hfound i hi) (by omega)
    | some j =>
      obtain ⟨hj, hbj, hleast⟩ := h.finds j hfound
      by_cases hij : i = j
      · exact hij ▸ mem_cons_self
      · have hne := hdistinct.ne hi hj hij
        have hle := hleast i hi hb
        refine mem_cons_of_mem _ (ih _ (hnext j hj) (by omega) ?_)
        have hlt := card_above_lt hj hbj
        omega

/-- The search finds the items in the order from the bottom up. -/
theorem drain_eq [DecidableEq ι] (h : Least height l b (next b)) (hdistinct : Distinct height l)
    (hb : ∀ i ∈ l, b ≤ height i) (hfuel : l.length ≤ n) :
    drain height next n b = bottomUp height l := by
  have hnodup : l.Nodup := hdistinct.imp fun hne heq => hne (congrArg height heq)
  have hrising := drain_rising hnext n b h
  have hdrain : (drain height next n b).Nodup :=
    hrising.distinct.imp fun hne heq => hne (congrArg height heq)
  refine hrising.eq_bottomUp ((perm_ext_iff_of_nodup hdrain hnodup).2 fun i => ⟨?_, ?_⟩)
  · exact fun hi => (le_of_mem_drain hnext n b h i hi).1
  · intro hi
    refine mem_drain hnext hdistinct hi n b h (hb i hi) (le_trans (Finset.card_filter_le _ _) ?_)
    exact le_trans (toFinset_card_le l) hfuel

end Search

/-! ## A search that stays with what it has -/

section Ties

variable (meets : ι → Prop) [DecidablePred meets] (height : ι → Int)

/-- One turn of a search for the lowest item from `b` on. At the sight of an item at `b` it
stays with the one it has. -/
def lower (b : Int) (next : Option ι) (i : ι) : Option ι :=
  if ¬ meets i ∨ height i < b then next
  else
    match next with
    | none => some i
    | some j =>
      if height i = b then some j
      else if height i < height j then some i
      else some j

/-- A search that stays with what it has at the sight of an item at its start. -/
def search (l : List ι) (b : Int) : Option ι := l.foldl (lower meets height b) none

/-- The search from `b` on misses the item: it is at that height, and one before it is
higher. -/
def Missed [LT ι] (l : List ι) (b : Int) (i : ι) : Prop :=
  meets i ∧ height i = b ∧ ∃ j ∈ l, j < i ∧ meets j ∧ b < height j

variable {meets height}

theorem search_append (l : List ι) (i : ι) (b : Int) :
    search meets height (l ++ [i]) b = lower meets height b (search meets height l b) i := by
  rw [search, foldl_append]
  rfl

theorem search_congr {meets' : ι → Prop} [DecidablePred meets'] (h : ∀ i, meets i ↔ meets' i) :
    search meets height l = search meets' height l := by
  have hlower : ∀ b, lower meets height b = lower meets' height b := by
    intro b
    funext next i
    simp only [lower, h]
  funext b
  rw [search, search, hlower]

theorem lower_skip {next : Option ι} (h : ¬ (meets i ∧ b ≤ height i)) :
    lower meets height b next i = next := by
  refine if_pos ?_
  by_contra hnot
  push Not at hnot
  exact h hnot

theorem lower_none (hmeets : meets i) (hb : b ≤ height i) :
    lower meets height b none i = some i := by
  exact if_neg (by simp only [not_or, not_not]; exact ⟨hmeets, by omega⟩)

theorem lower_some (hmeets : meets i) (hb : b ≤ height i) :
    lower meets height b (some j) i =
      if height i = b then some j else if height i < height j then some i else some j := by
  exact if_neg (by simp only [not_or, not_not]; exact ⟨hmeets, by omega⟩)

/-- What is found is one of the items that count, from `b` on. -/
theorem search_some (h : search meets height l b = some i) : i ∈ l ∧ meets i ∧ b ≤ height i := by
  induction l using List.reverseRecOn generalizing i with
  | nil => cases h
  | append_singleton l k ih =>
    rw [search_append] at h
    by_cases hk : meets k ∧ b ≤ height k
    · have hlast : k ∈ l ++ [k] := by simp
      cases hnext : search meets height l b with
      | none =>
        rw [hnext, lower_none hk.1 hk.2] at h
        cases h
        exact ⟨hlast, hk⟩
      | some j =>
        obtain ⟨hj, hmeets⟩ := ih hnext
        rw [hnext, lower_some hk.1 hk.2] at h
        split_ifs at h <;> cases h
        · exact ⟨mem_append_left _ hj, hmeets⟩
        · exact ⟨hlast, hk⟩
        · exact ⟨mem_append_left _ hj, hmeets⟩
    · rw [lower_skip hk] at h
      obtain ⟨hi, hmeets⟩ := ih h
      exact ⟨mem_append_left _ hi, hmeets⟩

theorem le_search (b : Int) (i : ι) (h : search meets height l b = some i) : b ≤ height i :=
  (search_some h).2.2

theorem lower_least [LT ι] {next : Option ι} (hl : ∀ j ∈ l, j < i)
    (hmiss : ¬ Missed meets height l b i) (h : Least height (l.filter fun i => meets i) b next) :
    Least height ((l ++ [i]).filter fun i => meets i) b (lower meets height b next i) := by
  rw [filter_append]
  by_cases hmeets : meets i
  · rw [filter_singleton, decide_eq_true hmeets, cond_true]
    by_cases hb : b ≤ height i
    · cases next with
      | none =>
        rw [lower_none hmeets hb]
        exact h.first hb
      | some j =>
        have hj := List.mem_filter.1 (h.finds j rfl).1
        rw [lower_some hmeets hb]
        split_ifs with hat hlower
        · refine h.stay ?_
          by_contra hgt
          exact hmiss ⟨hmeets, hat, j, hj.1, hl j hj.1, of_decide_eq_true hj.2, by omega⟩
        · exact h.lower hb hlower
        · exact h.stay (by omega)
    · rw [lower_skip fun hboth => hb hboth.2]
      exact h.below (by omega)
  · rw [filter_singleton, decide_eq_false hmeets, cond_false, append_nil,
      lower_skip fun hboth => hmeets hboth.1]
    exact h

omit [DecidablePred meets] in
theorem Missed.mono [LT ι] (h : Missed meets height l b i) (hl : ∀ j ∈ l, j ∈ l') :
    Missed meets height l' b i := by
  obtain ⟨hmeets, hat, j, hj, hji, hj'⟩ := h
  exact ⟨hmeets, hat, j, hl j hj, hji, hj'⟩

theorem search_least [LT ι] (hsorted : l.Pairwise (· < ·))
    (hmiss : ∀ i ∈ l, ¬ Missed meets height l b i) :
    Least height (l.filter fun i => meets i) b (search meets height l b) := by
  induction l using List.reverseRecOn with
  | nil => exact Least.nil
  | append_singleton l i ih =>
    obtain ⟨hl, -, hlast⟩ := List.pairwise_append.1 hsorted
    have hbefore : ∀ j ∈ l, j ∈ l ++ [i] := fun j hj => mem_append_left _ hj
    rw [search_append]
    refine lower_least (fun j hj => hlast j hj i (mem_singleton_self i))
      (fun h => hmiss i (by simp) (h.mono hbefore)) (ih hl fun j hj h => ?_)
    exact hmiss j (hbefore j hj) (h.mono hbefore)

theorem search_above (h : search meets height l b = some j) (hj : b < height j) (l' : List ι) :
    ∃ k, search meets height (l ++ l') b = some k ∧ b < height k := by
  induction l' using List.reverseRecOn with
  | nil => exact ⟨j, by rw [append_nil]; exact h, hj⟩
  | append_singleton l' i ih =>
    obtain ⟨k, hk, hbk⟩ := ih
    rw [← append_assoc, search_append, hk]
    by_cases hi : meets i ∧ b ≤ height i
    · rw [lower_some hi.1 hi.2]
      split_ifs with hat
      · exact ⟨k, rfl, hbk⟩
      · exact ⟨i, rfl, by omega⟩
      · exact ⟨k, rfl, hbk⟩
    · rw [lower_skip hi]
      exact ⟨k, rfl, hbk⟩

theorem search_ne_none (hj : j ∈ l) (hmeets : meets j) (hb : b ≤ height j) :
    search meets height l b ≠ none := by
  induction l using List.reverseRecOn with
  | nil => cases hj
  | append_singleton l i ih =>
    rw [search_append]
    intro hnone
    by_cases hi : meets i ∧ b ≤ height i
    · cases hnext : search meets height l b with
      | none =>
        rw [hnext, lower_none hi.1 hi.2] at hnone
        cases hnone
      | some k =>
        rw [hnext, lower_some hi.1 hi.2] at hnone
        split_ifs at hnone
    · rw [lower_skip hi] at hnone
      rcases List.mem_append.1 hj with hj | hj
      · exact ih hj hnone
      · rw [List.mem_singleton.1 hj] at hmeets hb
        exact hi ⟨hmeets, hb⟩

/-- The search that misses the one item at its start finds a higher one. -/
theorem Missed.search [Preorder ι] (hsorted : l.Pairwise (· < ·)) (hi : i ∈ l)
    (h : Missed meets height l b i) (honly : ∀ k ∈ l, meets k → height k = b → k = i) :
    ∃ k, search meets height l b = some k ∧ b < height k := by
  obtain ⟨-, -, j, hj, hji, hjmeets, hbj⟩ := h
  obtain ⟨l₁, l₂, rfl⟩ := append_of_mem hi
  have hj₁ : j ∈ l₁ := by
    rcases List.mem_append.1 hj with hj | hj
    · exact hj
    · rcases List.mem_cons.1 hj with rfl | hj
      · exact absurd hji (lt_irrefl _)
      · have hij := rel_of_pairwise_cons (List.pairwise_append.1 hsorted).2.1 hj
        exact absurd (lt_trans hji hij) (lt_irrefl _)
  cases hfound : Layers.search meets height l₁ b with
  | none => exact absurd hfound (search_ne_none hj₁ hjmeets (by omega))
  | some k =>
    obtain ⟨hk, hkmeets, hbk⟩ := search_some hfound
    refine search_above hfound (lt_of_le_of_ne hbk fun hat => ?_) _
    have hki := honly k (mem_append_left _ hk) hkmeets hat.symm
    have hlt := (List.pairwise_append.1 hsorted).2.2 k hk i mem_cons_self
    rw [hki] at hlt
    exact lt_irrefl _ hlt

end Ties

/-! ## Loops -/

/-- The items that a loop of searches finds, when it ends within `n` searches. -/
def rounds (next : Int → Option ι) (after : ι → Int) : Nat → Int → Option (List ι)
  | 0, _ => none
  | n + 1, b =>
    match next b with
    | none => some []
    | some i => (rounds next after n (after i)).map (i :: ·)

section Loops

variable {after : ι → Int} {found : List ι} {m : Nat}

theorem rounds_none (hnext : next b = none) : rounds next after (n + 1) b = some [] := by
  rw [rounds, hnext]

theorem rounds_some (hnext : next b = some i) :
    rounds next after (n + 1) b = (rounds next after n (after i)).map (i :: ·) := by
  rw [rounds, hnext]

section
variable (h : rounds next after n b = some found)
include h

/-- A loop that ends has searched at least once. -/
theorem rounds_cases :
    ∃ m, n = m + 1 ∧ ((next b = none ∧ found = []) ∨
      ∃ i rest, next b = some i ∧ found = i :: rest ∧
        rounds next after m (after i) = some rest) := by
  cases n with
  | zero => cases h
  | succ m =>
    refine ⟨m, rfl, ?_⟩
    cases hnext : next b with
    | none =>
      rw [rounds_none hnext] at h
      exact .inl ⟨rfl, (Option.some.inj h).symm⟩
    | some i =>
      rw [rounds_some hnext] at h
      obtain ⟨rest, hrest, rfl⟩ := Option.map_eq_some_iff.1 h
      exact .inr ⟨i, rest, rfl, rfl, hrest⟩

theorem rounds_unique {found' : List ι}
    (h' : rounds next after m b = some found') : found = found' := by
  induction n generalizing m b found found' with
  | zero => cases h
  | succ n ih =>
    obtain ⟨_, hn, ⟨hnone, rfl⟩ | ⟨i, rest, hsome, rfl, hrest⟩⟩ := rounds_cases h
    · obtain ⟨m, rfl, -⟩ := rounds_cases h'
      rw [rounds_none hnone] at h'
      exact Option.some.inj h'
    · obtain ⟨m, rfl, ⟨hnone, -⟩ | ⟨i', rest', hsome', rfl, hrest'⟩⟩ := rounds_cases h'
      · rw [hsome] at hnone
        cases hnone
      · rw [hsome, Option.some.injEq] at hsome'
        rw [← Nat.succ.inj hn] at hrest
        rw [← hsome'] at hrest' ⊢
        rw [ih hrest hrest']

/-- The loop goes on after each item that it finds. -/
theorem rounds_split (hi : i ∈ found) :
    ∃ l₁ l₂ m, found = l₁ ++ i :: l₂ ∧ rounds next after m (after i) = some l₂ := by
  induction n generalizing b found with
  | zero => cases h
  | succ n ih =>
    obtain ⟨m, hm, ⟨-, rfl⟩ | ⟨k, rest, -, rfl, hrest⟩⟩ := rounds_cases h
    · cases hi
    · rcases List.mem_cons.1 hi with rfl | hi
      · exact ⟨[], rest, m, rfl, hrest⟩
      · rw [← Nat.succ.inj hm] at hrest
        obtain ⟨l₁, l₂, m', rfl, hrest'⟩ := ih hrest hi
        exact ⟨k :: l₁, l₂, m', rfl, hrest'⟩

theorem rounds_mem (hi : i ∈ found) : ∃ b, next b = some i := by
  induction n generalizing b found with
  | zero => cases h
  | succ n ih =>
    obtain ⟨m, hm, ⟨-, rfl⟩ | ⟨k, rest, hsome, rfl, hrest⟩⟩ := rounds_cases h
    · cases hi
    · rcases List.mem_cons.1 hi with rfl | hi
      · exact ⟨b, hsome⟩
      · exact ih (Nat.succ.inj hm ▸ hrest) hi

/-- A loop that starts over after an item never ends. -/
theorem rounds_no_return (hi : i ∈ found) : after i ≠ b := by
  intro hreturn
  obtain ⟨l₁, l₂, m, rfl, hrest⟩ := rounds_split h hi
  rw [hreturn] at hrest
  have hlength := congrArg List.length (rounds_unique h hrest)
  simp at hlength
  omega

end

/-- Each search of a loop that goes on above the last item finds a higher one. -/
theorem rounds_rising (hnext : ∀ b i, next b = some i → b ≤ height i)
    (h : rounds next after n b = some found) (hafter : ∀ i ∈ found, after i = height i + 1) :
    Rising height found ∧ ∀ i ∈ found, b ≤ height i := by
  induction n generalizing b found with
  | zero => cases h
  | succ n ih =>
    obtain ⟨m, hm, ⟨-, rfl⟩ | ⟨k, rest, hsome, rfl, hrest⟩⟩ := rounds_cases h
    · exact ⟨List.Pairwise.nil, fun i hi => (by cases hi)⟩
    · rw [← Nat.succ.inj hm] at hrest
      obtain ⟨hrising, hle⟩ := ih hrest fun i hi => hafter i (mem_cons_of_mem k hi)
      have hk := hnext b k hsome
      rw [hafter k mem_cons_self] at hle
      refine ⟨List.Pairwise.cons (fun i hi => ?_) hrising, fun i hi => ?_⟩
      · have := hle i hi
        omega
      · rcases List.mem_cons.1 hi with rfl | hi
        · exact hk
        · have := hle i hi
          omega

/-- With enough searches the loop ends. -/
theorem rounds_eq_drain [DecidableEq ι]
    (hnext : ∀ i ∈ l, Least height l (height i + 1) (next (height i + 1)))
    (hafter : ∀ i ∈ l, after i = height i + 1) (h : Least height l b (next b))
    (hfuel : (l.toFinset.filter (b ≤ height ·)).card < n) :
    rounds next after n b = some (drain height next n b) := by
  induction n generalizing b with
  | zero => omega
  | succ n ih =>
    rw [drain]
    cases hfound : next b with
    | none => rw [rounds_none hfound]
    | some i =>
      obtain ⟨hi, hbi, -⟩ := h.finds i hfound
      have hlt : (l.toFinset.filter (height i + 1 ≤ height ·)).card <
          (l.toFinset.filter (b ≤ height ·)).card := card_above_lt hi hbi
      rw [rounds_some hfound, hafter i hi, ih (hnext i hi) (by omega)]
      rfl

end Loops

/-! ## Complete loops -/

section Complete

variable [LinearOrder ι] {meets : ι → Prop} [DecidablePred meets] {after : ι → Int}
  {found : List ι} {bottom top : Int}

/-- The list has every item that counts once, from the bottom up. -/
structure Complete (meets : ι → Prop) (height : ι → Int) (l found : List ι) : Prop where
  once : found.Nodup
  mem : ∀ i, i ∈ found ↔ i ∈ l ∧ meets i
  sorted : found.Pairwise (height · ≤ height ·)

/-- No two items that count are at the same height, and no search of the loop misses one. -/
structure Findable (meets : ι → Prop) (height : ι → Int) (l : List ι) (bottom : Int) : Prop where
  distinct : ∀ i ∈ l, ∀ j ∈ l, meets i → meets j → i ≠ j → height i ≠ height j
  first : ∀ i ∈ l, ¬ Missed meets height l bottom i
  later : ∀ k ∈ l, meets k → ∀ i ∈ l, ¬ Missed meets height l (height k + 1) i

section
variable (h : Findable meets height l bottom) (hsorted : l.Pairwise (· < ·))
include h hsorted

theorem Findable.distinct_filter : Distinct height (l.filter fun i => meets i) := by
  refine (hsorted.filter _).imp_of_mem fun {i j} hi hj hlt => ?_
  rw [mem_filter] at hi hj
  exact h.distinct i hi.1 j hj.1 (of_decide_eq_true hi.2) (of_decide_eq_true hj.2) hlt.ne

/-- Where every search finds the lowest item, the loop ends with all of them. -/
theorem Findable.rounds (hbottom : ∀ i ∈ l, bottom ≤ height i)
    (hafter : ∀ i ∈ l, meets i → after i = height i + 1) :
    rounds (search meets height l) after (l.length + 1) bottom =
      some (bottomUp height (l.filter fun i => meets i)) := by
  have hmem : ∀ i ∈ l.filter fun i => meets i, i ∈ l ∧ meets i := fun i hi =>
    ⟨(List.mem_filter.1 hi).1, of_decide_eq_true (List.mem_filter.1 hi).2⟩
  have hnext : ∀ i ∈ l.filter fun i => meets i,
      Least height (l.filter fun i => meets i) (height i + 1)
        (search meets height l (height i + 1)) := fun i hi =>
    search_least hsorted (h.later i (hmem i hi).1 (hmem i hi).2)
  have hfirst := search_least hsorted h.first
  have hlength : (l.filter fun i => meets i).length ≤ l.length := length_filter_le _ _
  have hcard : ((l.filter fun i => meets i).toFinset.filter (bottom ≤ height ·)).card ≤
      (l.filter fun i => meets i).length :=
    le_trans (Finset.card_filter_le _ _) (toFinset_card_le _)
  rw [rounds_eq_drain hnext (fun i hi => hafter i (hmem i hi).1 (hmem i hi).2) hfirst (by omega),
    drain_eq hnext hfirst (h.distinct_filter hsorted) (fun i hi => hbottom i (hmem i hi).1)
      (by omega)]

theorem Findable.complete :
    Complete meets height l (bottomUp height (l.filter fun i => meets i)) := by
  have hrising := (h.distinct_filter hsorted).bottomUp
  refine ⟨hrising.imp fun hlt heq => ?_, fun i => ?_, hrising.imp fun hlt => hlt.le⟩
  · exact lt_irrefl _ (heq ▸ hlt)
  · rw [(bottomUp_perm _ _).mem_iff, mem_filter, decide_eq_true_eq]

end

/-- A complete loop finds the one item at the start of a search. -/
theorem not_missed_of_rounds (hsorted : l.Pairwise (· < ·)) (hi : i ∈ l) (hfound : i ∈ found)
    (h : rounds (search meets height l) after n b = some found)
    (hafter : ∀ i ∈ found, after i = height i + 1)
    (honly : ∀ k ∈ l, meets k → height k = b → k = i) : ¬ Missed meets height l b i := by
  intro hmissed
  obtain ⟨k, hk, hbk⟩ := hmissed.search hsorted hi honly
  obtain ⟨m, rfl, ⟨hnone, -⟩ | ⟨k', rest, hsome, rfl, hrest⟩⟩ := rounds_cases h
  · rw [hk] at hnone
    cases hnone
  · rw [hk, Option.some.injEq] at hsome
    subst hsome
    have hat := hmissed.2.1
    have hle := (rounds_rising le_search hrest fun i hi => hafter i (mem_cons_of_mem k hi)).2
    rw [hafter k mem_cons_self] at hle
    rcases List.mem_cons.1 hfound with rfl | hfound
    · omega
    · have := hle i hfound
      omega

/-- A loop that starts over after an item at the top finds every item once, from the bottom
up, exactly when no item is there, all are at different heights and no search misses one. -/
theorem complete_iff (hsorted : l.Pairwise (· < ·)) (hbottom : ∀ i ∈ l, bottom ≤ height i)
    (hafter : ∀ i ∈ l, after i = if height i = top then bottom else height i + 1) :
    (∃ n found, rounds (search meets height l) after n bottom = some found ∧
        Complete meets height l found) ↔
      (∀ i ∈ l, meets i → height i ≠ top) ∧ Findable meets height l bottom := by
  constructor
  · rintro ⟨n, found, h, hcomplete⟩
    have htop : ∀ i ∈ l, meets i → height i ≠ top := by
      intro i hi hmeets hat
      refine rounds_no_return h ((hcomplete.mem i).2 ⟨hi, hmeets⟩) ?_
      rw [hafter i hi, if_pos hat]
    have hup : ∀ i ∈ found, after i = height i + 1 := by
      intro i hi
      obtain ⟨hil, hmeets⟩ := (hcomplete.mem i).1 hi
      rw [hafter i hil, if_neg (htop i hil hmeets)]
    have hrising := (rounds_rising le_search h hup).1
    have hdistinct : ∀ i ∈ l, ∀ j ∈ l, meets i → meets j → i ≠ j → height i ≠ height j :=
      fun i hi j hj hmi hmj =>
        hrising.distinct.ne ((hcomplete.mem i).2 ⟨hi, hmi⟩) ((hcomplete.mem j).2 ⟨hj, hmj⟩)
    have honly : ∀ i ∈ l, meets i → ∀ k ∈ l, meets k → height k = height i → k = i := by
      intro i hi hmi k hk hmk heq
      by_contra hne
      exact hdistinct k hk i hi hmk hmi hne heq
    refine ⟨htop, hdistinct, fun i hi hmissed => ?_, fun k hk hmk i hi hmissed => ?_⟩
    · refine not_missed_of_rounds hsorted hi ((hcomplete.mem i).2 ⟨hi, hmissed.1⟩) h hup ?_ hmissed
      rw [← hmissed.2.1]
      exact honly i hi hmissed.1
    · -- The search from above `k` goes on with the rest of the list, and that has `i`.
      obtain ⟨l₁, l₂, m, rfl, hrest⟩ := rounds_split h ((hcomplete.mem k).2 ⟨hk, hmk⟩)
      rw [hup k (by simp)] at hrest
      have hat := hmissed.2.1
      have hi₂ : i ∈ l₂ := by
        rcases List.mem_append.1 ((hcomplete.mem i).2 ⟨hi, hmissed.1⟩) with hi₁ | hi₂
        · have := (List.pairwise_append.1 hrising).2.2 i hi₁ k mem_cons_self
          omega
        · rcases List.mem_cons.1 hi₂ with rfl | hi₂
          · omega
          · exact hi₂
      refine not_missed_of_rounds hsorted hi hi₂ hrest (fun j hj => hup j (by simp [hj])) ?_ hmissed
      rw [← hat]
      exact honly i hi hmissed.1
  · rintro ⟨htop, hfindable⟩
    refine ⟨_, _, hfindable.rounds hsorted hbottom fun i hi hmeets => ?_,
      hfindable.complete hsorted⟩
    rw [hafter i hi, if_neg (htop i hi hmeets)]

end Complete

/-! ## The item on top -/

section Top

variable {shows : ι → Prop} [DecidablePred shows] {meets : ι → Prop} {found : List ι}

/-- One turn of a search for the highest item, the first one where several are as high. -/
def higher (shows : ι → Prop) [DecidablePred shows] (height : ι → Int) (best : Option ι) (i : ι) :
    Option ι :=
  if ¬ shows i then best
  else
    match best with
    | none => some i
    | some j => if height j < height i then some i else some j

/-- A search for the item on top. -/
def highest (shows : ι → Prop) [DecidablePred shows] (height : ι → Int) (l : List ι) : Option ι :=
  l.foldl (higher shows height) none

/-- The item found is a highest one. -/
structure Greatest (shows : ι → Prop) (height : ι → Int) (l : List ι) (found : Option ι) :
    Prop where
  lacks : found = none → ∀ i ∈ l, ¬ shows i
  finds : ∀ i, found = some i → i ∈ l ∧ shows i ∧ ∀ j ∈ l, shows j → height j ≤ height i

variable {best : Option ι}

theorem higher_skip (h : ¬ shows i) : higher shows height best i = best :=
  if_pos h

theorem higher_some (h : shows i) :
    higher shows height (some j) i = if height j < height i then some i else some j :=
  if_neg (not_not.2 h)

theorem higher_none (h : shows i) : higher shows height none i = some i := if_neg (not_not.2 h)

theorem higher_greatest (h : Greatest shows height l best) (i : ι) :
    Greatest shows height (l ++ [i]) (higher shows height best i) := by
  have hsplit : ∀ {p : ι → Prop}, (∀ j ∈ l ++ [i], p j) ↔ (∀ j ∈ l, p j) ∧ p i := by
    simp [or_imp, forall_and]
  by_cases hi : shows i
  · have hself : i ∈ l ++ [i] := by simp
    cases best with
    | none =>
      have hlacks := h.lacks rfl
      rw [higher_none hi]
      refine ⟨fun hnone => (by cases hnone), ?_⟩
      rintro _ ⟨⟩
      exact ⟨hself, hi, hsplit.2 ⟨fun j hj hshows => absurd hshows (hlacks j hj), fun _ => le_rfl⟩⟩
    | some j =>
      obtain ⟨hj, hshows, hgreatest⟩ := h.finds j rfl
      rw [higher_some hi]
      split_ifs with hlt
      · refine ⟨fun hnone => (by cases hnone), ?_⟩
        rintro _ ⟨⟩
        exact ⟨hself, hi, hsplit.2
          ⟨fun k hk hk' => le_trans (hgreatest k hk hk') hlt.le, fun _ => le_rfl⟩⟩
      · refine ⟨fun hnone => (by cases hnone), ?_⟩
        rintro _ ⟨⟩
        exact ⟨mem_append_left _ hj, hshows, hsplit.2 ⟨hgreatest, fun _ => not_lt.1 hlt⟩⟩
  · rw [higher_skip hi]
    refine ⟨fun hnone => hsplit.2 ⟨h.lacks hnone, hi⟩, fun j hj => ?_⟩
    obtain ⟨hjl, hshows, hgreatest⟩ := h.finds j hj
    exact ⟨mem_append_left _ hjl, hshows, hsplit.2 ⟨hgreatest, fun hi' => absurd hi' hi⟩⟩

theorem highest_greatest (l : List ι) : Greatest shows height l (highest shows height l) := by
  induction l using List.reverseRecOn with
  | nil => exact ⟨fun _ i hi => (by cases hi), fun i hi => (by cases hi)⟩
  | append_singleton l i ih =>
    rw [highest, foldl_append]
    exact higher_greatest ih i

/-- The highest item that shows is the last one drawn of those that show. -/
theorem highest_eq_last (hfound : Complete meets height l found) (hrising : Rising height found)
    (hshows : ∀ i ∈ l, shows i → meets i) :
    highest shows height l = (found.filter fun i => shows i).getLast? := by
  have hmem : ∀ i, i ∈ found.filter (fun i => decide (shows i)) ↔ i ∈ l ∧ shows i := by
    intro i
    rw [mem_filter, hfound.mem, decide_eq_true_eq]
    exact ⟨fun h => ⟨h.1.1, h.2⟩, fun h => ⟨⟨h.1, hshows i h.1 h.2⟩, h.2⟩⟩
  have hgreatest : Greatest shows height l (highest shows height l) := highest_greatest l
  cases hlast : (found.filter fun i => shows i).getLast? with
  | none =>
    rw [List.getLast?_eq_none_iff] at hlast
    cases hhighest : highest shows height l with
    | none => rfl
    | some i =>
      have hi := (hmem i).2 ⟨(hgreatest.finds i hhighest).1, (hgreatest.finds i hhighest).2.1⟩
      rw [hlast] at hi
      cases hi
  | some k =>
    obtain ⟨below, hbelow⟩ := List.getLast?_eq_some_iff.1 hlast
    have hk : k ∈ l ∧ shows k := (hmem k).1 (by rw [hbelow]; simp)
    have htop : ∀ i, i ∈ l ∧ shows i → i ≠ k → height i < height k := by
      intro i hi hne
      have hsorted : Rising height (below ++ [k]) := hbelow ▸ List.Pairwise.filter _ hrising
      have hib : i ∈ below := by
        have := (hmem i).2 hi
        rw [hbelow] at this
        simpa [hne] using this
      exact (List.pairwise_append.1 hsorted).2.2 i hib k (by simp)
    cases hhighest : highest shows height l with
    | none => exact absurd hk.2 (hgreatest.lacks hhighest k hk.1)
    | some i =>
      obtain ⟨hi, hishows, hmax⟩ := hgreatest.finds i hhighest
      by_contra hne
      have hlt := htop i ⟨hi, hishows⟩ fun heq => hne (by rw [heq])
      have hle := hmax k hk.1 hk.2
      omega

end Top

end RadKernel.Layers
