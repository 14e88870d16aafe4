import RadKernel.Fat.Table
import RadKernel.Lib.Chain
import Mathlib.Algebra.GroupWithZero.Nat

/-!
# Chains of clusters

What the functions on the table do to the chains. Owners hold chains by their first clusters;
which owners there are is left to the users of this file. Some clusters are kept: whatever is done
to the chains, their links and their sectors stay.
-/

namespace RadKernel.Fat

open Kernel Prog Function

variable {g : FatContext} {d d' d₀ : Disk} {ι : Type} {first : ι → Nat} {o : ι} {c a v : Nat}
  {kept : Nat → Prop}

/-- A chain of the volume. -/
abbrev ChainOf (g : FatContext) (d : Disk) : Nat → List Nat → Prop :=
  Chain (fun v => isEoc v = true) (links g d)

/-- `c` is in the chain from `a` on. -/
def OnChain (g : FatContext) (d : Disk) (a c : Nat) : Prop := ∃ l, ChainOf g d a l ∧ c ∈ l

/-- The copies of the table agree, owners hold their chains and the kept clusters are as they were.
-/
structure Volume (g : FatContext) (kept : Nat → Prop) (d₀ : Disk) (first : ι → Nat) (d : Disk) :
    Prop where
  copies : CopiesEqual g d
  held : HeldChains (fun v => isEoc v = true) (InRange g) kept (links g d) first
  link : ∀ c, kept c → links g d c = links g d₀ c
  data : ∀ c, kept c → ∀ s, InCluster g c s → d s = d₀ s

theorem isEoc_fatEoc : isEoc fatEoc = true := rfl

namespace Volume

section

variable (h : Volume g kept d₀ first d)
include h

theorem kept_inRange (hc : kept c) : InRange g c := inRange_of_links (h.held.used c hc)

theorem onChain_inRange (ho : first o ≠ 0) (hc : OnChain g d (first o) c) :
    InRange g c ∧ ¬kept c ∧ links g d c ≠ 0 := by
  obtain ⟨l, hl, hmem⟩ := hc
  exact h.held.mem ho hl hmem

theorem free_not_kept (hfree : links g d c = 0) : ¬kept c := fun hc => h.held.used c hc hfree

end

section

variable (hg : Layout g) (h : Volume g kept d₀ first d)
include hg h

theorem writeData {s : Nat} {buffer : Bytes} (hc : InCluster g c s) (hrange : InRange g c)
    (hkept : ¬kept c) : Volume g kept d₀ first (update d s buffer) := by
  have htable : SameTable g d (update d s buffer) := by
    intro s' hs'
    have := hc.data
    rw [update_of_ne (by omega)]
  have hlinks := htable.links hg
  refine ⟨htable.copiesEqual hg h.copies, by rw [hlinks]; exact h.held, fun c' hc' => ?_,
    fun c' hc' s' hs' => ?_⟩
  · rw [hlinks]
    exact h.link c' hc'
  · have hne : s' ≠ s := by
      rintro rfl
      have heq := hs'.unique hc (h.kept_inRange hc').1 hrange.1
      exact hkept (heq ▸ hc')
    rw [update_of_ne hne]
    exact h.data c' hc' s' hs'

theorem setNext_kept (hc : InRange g c) (hkept : ¬kept c) (hv : v < 2 ^ 28) :
    (∀ c', kept c' → links g (setNext g d c v) c' = links g d₀ c') ∧
      ∀ c', kept c' → ∀ s, InCluster g c' s → setNext g d c v s = d₀ s := by
  refine ⟨fun c' hc' => ?_, fun c' hc' s hs => ?_⟩
  · have hne : c' ≠ c := by
      rintro rfl
      exact hkept hc'
    rw [links_setNext hg hc hv, update_of_ne hne]
    exact h.link c' hc'
  · rw [setNext_data hg hc hs.data]
    exact h.data c' hc' s hs

/-- A free cluster is taken and linked to nothing yet. -/
theorem taken_kept (hc : InRange g c) (hfree : links g d c = 0) :
    CopiesEqual g (taken g d c) ∧
      links g (taken g d c) = update (links g d) c fatEoc ∧
      (∀ c', kept c' → links g (taken g d c) c' = links g d₀ c') ∧
      ∀ c', kept c' → ∀ s, InCluster g c' s → taken g d c s = d₀ s := by
  have hkept := h.free_not_kept hfree
  have hlinks : links g (taken g d c) = links g (setNext g d c fatEoc) := sameTable_zeroed.links hg
  obtain ⟨hlink, hdata⟩ := h.setNext_kept hg hc hkept (show fatEoc < 2 ^ 28 by decide)
  refine ⟨sameTable_zeroed.copiesEqual hg (copiesEqual_setNext hg hc h.copies), ?_,
    fun c' hc' => ?_, fun c' hc' s hs => ?_⟩
  · rw [hlinks, links_setNext hg hc (by decide)]
  · rw [hlinks]
    exact hlink c' hc'
  · have hne : c' ≠ c := by
      rintro rfl
      exact hkept hc'
    rw [taken, zeroed_data hc (h.kept_inRange hc') hne hs]
    exact hdata c' hc' s hs

variable [DecidableEq ι]

/-- A free cluster becomes the chain of an owner that had none. -/
theorem start (ho : first o = 0) (hc : InRange g c) (hfree : links g d c = 0) :
    Volume g kept d₀ (update first o c) (taken g d c) := by
  obtain ⟨hcopies, hlinks, hlink, hdata⟩ := h.taken_kept hg hc hfree
  have hpos : c ≠ 0 := by
    have := hc.1
    omega
  refine ⟨hcopies, ?_, hlink, hdata⟩
  rw [hlinks]
  exact h.held.start hfree hc hpos isEoc_fatEoc (by decide) ho

theorem grow (ho : first o ≠ 0) (ha : OnChain g d (first o) a) (hlast : isEoc (links g d a))
    (hc : InRange g c) (hfree : links g d c = 0) :
    Volume g kept d₀ first (setNext g (taken g d c) a c) ∧
      OnChain g (setNext g (taken g d c) a c) (first o) c := by
  obtain ⟨hcopies, hlinks, hlink, hdata⟩ := h.taken_kept hg hc hfree
  obtain ⟨harange, hakept, -⟩ := h.onChain_inRange ho ha
  obtain ⟨l, hl, hal⟩ := ha
  have hmarks := hg.marks
  have hc' := hc.2
  have hpos : c ≠ 0 := by
    have := hc.1
    omega
  have hlinks' : links g (setNext g (taken g d c) a c) =
      update (update (links g d) c fatEoc) a c := by
    rw [links_setNext hg harange (by omega), hlinks]
  obtain ⟨hheld, hchain⟩ := h.held.grow ho hl hal hlast hfree hc hpos (hg.not_isEoc hc) isEoc_fatEoc
    (show fatEoc ≠ 0 by decide)
  rw [← hlinks'] at hheld hchain
  refine ⟨⟨copiesEqual_setNext hg harange hcopies, hheld, fun x hx => ?_, fun x hx s hs => ?_⟩,
    l ++ [c], hchain, by simp⟩
  · have hne : x ≠ a := by
      rintro rfl
      exact hakept hx
    rw [links_setNext hg harange (by omega), update_of_ne hne]
    exact hlink x hx
  · rw [setNext_data hg harange hs.data]
    exact hdata x hx s hs

/-- The first cluster of a chain is freed. -/
theorem release (ho : first o ≠ 0) :
    Volume g kept d₀
      (update first o (if isEoc (links g d (first o)) then 0 else links g d (first o)))
      (setNext g d (first o) 0) := by
  obtain ⟨l, hl, -⟩ := h.held.chain o ho
  obtain ⟨hrange, hkept, -⟩ := h.onChain_inRange ho ⟨l, hl, hl.head_mem⟩
  obtain ⟨hlink, hdata⟩ := h.setNext_kept hg hrange hkept (show 0 < 2 ^ 28 by decide)
  refine ⟨copiesEqual_setNext hg hrange h.copies, ?_, hlink, hdata⟩
  rw [links_setNext hg hrange (by decide)]
  exact h.held.release ho rfl

end

end Volume

/-! ## Loops over chains -/

section

variable [DecidableEq ι] {allocate : Bool} {index cluster : Nat}

theorem OnChain.next (h : OnChain g d a c) (hgo : ¬isEoc (links g d c)) :
    OnChain g d a (links g d c) := by
  obtain ⟨l, hl, hc⟩ := h
  exact ⟨l, hl, hl.next_mem hc hgo⟩

/-- `cluster_at` stays on the chain that it follows, and makes it longer where it has to. -/
theorem followChain_volume (hg : Layout g) (ho : first o ≠ 0) :
    Triple (fun d => Volume g kept d₀ first d ∧ OnChain g d (first o) cluster)
      (followChain g allocate index cluster)
      (fun c d => Volume g kept d₀ first d ∧ (OnChain g d (first o) c ∨ c = 0 ∧ allocate = false))
      fun _ d => Volume g kept d₀ first d := by
  induction index generalizing cluster with
  | zero => exact Triple.pure fun d h => ⟨h.1, .inl h.2⟩
  | succ index ih =>
    rintro d ⟨hvolume, hchain⟩ r d' hrun
    obtain ⟨hrange, -, -⟩ := hvolume.onChain_inRange ho hchain
    have hentry := @fatEntry_eq g d cluster hg hrange
    rw [← links_of_inRange hrange] at hentry
    simp only [followChain, bind_apply, Prog.query, hentry, Option.map_some] at hrun
    by_cases hend : isEoc (links g d cluster)
    · rw [if_pos hend] at hrun
      cases hallocate : allocate with
      | false =>
        simp only [hallocate, Bool.false_eq_true, if_false, pure_apply] at hrun
        cases hrun
        exact ⟨hvolume, .inr ⟨rfl, rfl⟩⟩
      | true =>
        simp only [hallocate, if_true, bind_apply] at hrun ih
        rcases allocateCluster_cases hg d with ⟨x, hx, hfree, htake⟩ | hfull
        · have hset := @setFatEntry_eq g (taken g d x) cluster x hg hrange
          simp only [htake, hset] at hrun
          exact ih _ (hvolume.grow hg ho hchain hend hx hfree) _ _ hrun
        · simp only [hfull] at hrun
          cases hrun
          exact hvolume
    · rw [if_neg hend] at hrun
      exact ih _ ⟨hvolume, hchain.next hend⟩ _ _ hrun

theorem freeRounds_volume (hg : Layout g) {rounds : Nat} {l : List Nat}
    (hvolume : Volume g kept d₀ first d) (ho : first o ≠ 0) (hl : ChainOf g d (first o) l)
    (hrounds : l.length ≤ rounds) :
    ∃ d', freeRounds g rounds (first o) d = some (.ok (), d') ∧
      Volume g kept d₀ (update first o 0) d' := by
  induction rounds generalizing first d l with
  | zero =>
    have := List.length_pos_of_mem hl.head_mem
    omega
  | succ rounds ih =>
    obtain ⟨hrange, hkept, -⟩ := hvolume.onChain_inRange ho ⟨l, hl, hl.head_mem⟩
    have hentry := @fatEntry_eq g d (first o) hg hrange
    have hset := @setFatEntry_eq g d (first o) 0 hg hrange
    have hrelease := hvolume.release hg ho
    have hgo : ¬((decide (first o < 2) || isEoc (first o)) = true) := by
      have hge := hrange.1
      have heoc := hg.not_isEoc hrange
      simp only [Bool.or_eq_true, decide_eq_true_eq, not_or]
      exact ⟨by omega, heoc⟩
    rw [← links_of_inRange hrange] at hentry
    simp only [freeRounds, if_neg hgo, bind_apply, Prog.query, hentry, Option.map_some, hset]
    by_cases hend : isEoc (links g d (first o))
    · rw [if_pos hend] at hrelease ⊢
      exact ⟨_, rfl, hrelease⟩
    rw [if_neg hend] at hrelease ⊢
    have hnext : links g d (first o) ≠ 0 := (hvolume.onChain_inRange ho ⟨l, hl, hl.head_mem⟩).2.2
    have hlinks := links_setNext hg hrange (d := d) (v := 0) (by decide)
    have hnodup := hl.nodup
    generalize hfirst : first o = a at hl hrelease hend hnext hlinks hnodup ⊢
    cases hl with
    | last hstop => exact absurd hstop hend
    | @link _ tail _ htail =>
      -- the rest of the chain is the same without its first cluster
      have hrest : ChainOf g (setNext g d a 0) (links g d a) tail := by
        refine htail.congr fun x hx => ?_
        have hne : x ≠ a := by
          rintro rfl
          exact (List.nodup_cons.1 hnodup).1 hx
        rw [hlinks, update_of_ne hne]
      have hself : update first o (links g d a) o = links g d a := update_self ..
      have hfreed := ih hrelease (by rwa [hself]) (by rwa [hself]) (by simpa using hrounds)
      rwa [hself, Function.update_idem] at hfreed

end

end RadKernel.Fat
