import RadKernel.Fat.Volume
import RadKernel.Fat.Directory
import Mathlib.Data.List.Perm.Subperm

/-!
# Searching the root directory

`find_entry` goes through the clusters of the root directory one after the other, and reports an
offset without its cluster.
-/

namespace RadKernel.Fat

open Kernel Prog

variable {g : FatContext} {d : Disk} {name : List UInt8} {a c j n offset : Nat} {l : List Nat}
  {free : Option Nat}

section

variable (g : FatContext) (d : Disk) (name : List UInt8)

/-- The cluster has neither the name nor the end of the directory. -/
def Passed (c : Nat) : Prop := ∀ i < slots g, slot g d c i 0 ≠ 0 ∧ ¬Names (slot g d c i) name

/-- The first entry with the name is entry `j` of cluster `c`. -/
inductive FirstMatch : List Nat → Nat → Nat → Prop
  | here {c j : Nat} {l : List Nat} : FirstNamed g d name c j → FirstMatch (c :: l) c j
  | later {a c j : Nat} {l : List Nat} : Passed g d name a → FirstMatch l c j →
      FirstMatch (a :: l) c j

/-- The first free entry is entry `j` of cluster `c`, and none before it has the name. -/
inductive FirstSpace : List Nat → Nat → Nat → Prop
  | here {c j : Nat} {l : List Nat} : FirstFree g d name c j → FirstSpace (c :: l) c j
  | later {a c j : Nat} {l : List Nat} : Passed g d name a → (∀ i < slots g, ¬Free (slot g d a i)) →
      FirstSpace l c j → FirstSpace (a :: l) c j

end

theorem FirstMatch.mem (h : FirstMatch g d name l c j) : c ∈ l := by
  induction h with
  | here => simp
  | later _ _ ih => simp [ih]

theorem FirstSpace.mem (h : FirstSpace g d name l c j) : c ∈ l := by
  induction h with
  | here => simp
  | later _ _ _ ih => simp [ih]

theorem FirstMatch.firstNamed (h : FirstMatch g d name l c j) : FirstNamed g d name c j := by
  induction h with
  | here h => exact h
  | later _ _ ih => exact ih

theorem FirstSpace.firstFree (h : FirstSpace g d name l c j) : FirstFree g d name c j := by
  induction h with
  | here h => exact h
  | later _ _ _ ih => exact ih

/-! ## One cluster -/

/-- The result of a scan with the free entry that an earlier cluster had. -/
def Scan.orFree (free : Option Nat) : Scan → Scan
  | .found entry offset => .found entry offset
  | .ended free' => .ended (free.or free')
  | .exhausted free' => .exhausted (free.or free')

theorem scanCluster_orFree (free : Option Nat) {free' : Option Nat} {r : Scan}
    (h : scanCluster g name c n offset free' d = some (.ok r)) :
    scanCluster g name c n offset (free.or free') d = some (.ok (r.orFree free)) := by
  induction n generalizing offset free' with
  | zero =>
    cases h
    rfl
  | succ n ih =>
    rw [scanCluster] at h ⊢
    obtain ⟨entry, hentry, h⟩ := Query.bind_eq_ok.1 h
    rw [Query.bind_of_ok hentry]
    split_ifs at h ⊢ with hend hdeleted hlong hname
    · cases h
      rw [Option.or_assoc]
      rfl
    · rw [Option.or_assoc]
      exact ih h
    · exact ih h
    · cases h
      rfl
    · exact ih h

/-! ## All clusters -/

/-- What is known when the search is over. -/
def Searched (g : FatContext) (d : Disk) (name : List UInt8) (l : List Nat) (free : Option Nat) :
    Found → Prop
  | .entry e off => ∃ c j, FirstMatch g d name l c j ∧ off = entrySize * j ∧ e = slot g d c j
  | .missing free' => (∀ c j, ¬FirstMatch g d name l c j) ∧ ∃ free'', free' = free.or free'' ∧
      ∀ off, free'' = some off → ∃ c j, FirstSpace g d name l c j ∧ off = entrySize * j

/-- A cluster in which the scan came to the end of the directory. -/
theorem not_firstMatch_of_ended {k : Nat} (hk : k < slots g) (hzero : slot g d a k 0 = 0)
    (hbefore : ∀ i < k, slot g d a i 0 ≠ 0 ∧ ¬Names (slot g d a i) name) :
    ¬FirstMatch g d name (a :: l) c j := by
  intro h
  cases h with
  | here h =>
    rcases Nat.lt_trichotomy j k with hlt | rfl | hlt
    · exact (hbefore j hlt).2 h.named
    · exact h.named.1.used hzero
    · exact (h.before k hlt).1 hzero
  | later h => exact (h k hk).1 hzero

theorem ReportsFree.space (h : ReportsFree g d name a free) :
    ∀ off, free = some off → ∃ c j, FirstSpace g d name (a :: l) c j ∧ off = entrySize * j := by
  intro off hoff
  obtain ⟨j, rfl, hfirst⟩ := h off hoff
  exact ⟨a, j, .here hfirst, rfl⟩

/-- One cluster ends the search, or it is passed. -/
theorem findRounds_step (name : List UInt8) (hg : Layout g) (ha : InRange g a) (rounds : Nat)
    (free : Option Nat) :
    (∃ r, findRounds g name (rounds + 1) a free d = some (.ok r) ∧
      ∀ l, Searched g d name (a :: l) free r) ∨
    ∃ free', Passed g d name a ∧ (free' = none → ∀ i < slots g, ¬Free (slot g d a i)) ∧
      ReportsFree g d name a free' ∧
      findRounds g name (rounds + 1) a free d =
        if isEoc (links g d a) then some (.ok (.missing (free.or free')))
        else findRounds g name rounds (links g d a) (free.or free') d := by
  obtain ⟨r, hscan, hr⟩ := scanCluster_cases hg ha name d
  have hentry := fatEntry_eq (d := d) hg ha
  rw [← links_of_inRange ha] at hentry
  have hscan' := scanCluster_orFree free hscan
  rw [Option.or_none, slots] at hscan'
  rw [findRounds, Query.bind_of_ok hscan']
  cases r with
  | found e off =>
    obtain ⟨j, rfl, rfl, hfirst⟩ := hr
    exact .inl ⟨_, rfl, fun l => ⟨a, j, .here hfirst, rfl, rfl⟩⟩
  | ended free' =>
    obtain ⟨⟨k, hk, hzero, hbefore⟩, hreports⟩ := hr
    exact .inl ⟨_, rfl, fun l => ⟨fun c j => not_firstMatch_of_ended hk hzero hbefore, free', rfl,
      hreports.space⟩⟩
  | exhausted free' =>
    obtain ⟨hpassed, hfull, hreports⟩ := hr
    refine .inr ⟨free', hpassed, hfull, hreports, ?_⟩
    dsimp only [Scan.orFree]
    rw [Query.bind_of_ok hentry]
    split <;> rfl

theorem findRounds_cases (hg : Layout g) {rounds : Nat} (hl : ChainOf g d a l)
    (hrange : ∀ c ∈ l, InRange g c) (hrounds : l.length ≤ rounds) (free : Option Nat) :
    ∃ r, findRounds g name rounds a free d = some (.ok r) ∧ Searched g d name l free r := by
  induction hl generalizing rounds free with
  | @last a hstop =>
    obtain ⟨rounds, rfl⟩ : ∃ n, rounds = n + 1 := ⟨rounds - 1, by simp at hrounds; omega⟩
    rcases findRounds_step name hg (hrange a (by simp)) rounds free with
      ⟨r, hrun, hsearched⟩ | ⟨free', hpassed, -, hreports, hrun⟩
    · exact ⟨r, hrun, hsearched []⟩
    rw [if_pos hstop] at hrun
    refine ⟨_, hrun, fun c j h => ?_, free', rfl, hreports.space⟩
    cases h with
    | here h => exact (hpassed j h.lt).2 h.named
    | later _ h => cases h
  | @link a l hgo hl ih =>
    obtain ⟨rounds, rfl⟩ : ∃ n, rounds = n + 1 := ⟨rounds - 1, by simp at hrounds; omega⟩
    rcases findRounds_step name hg (hrange a (by simp)) rounds free with
      ⟨r, hrun, hsearched⟩ | ⟨free', hpassed, hfull, hreports, hrun⟩
    · exact ⟨r, hrun, hsearched l⟩
    rw [if_neg hgo] at hrun
    obtain ⟨r, hrest, hsearched⟩ := ih (fun c hc => hrange c (by simp [hc]))
      (by simpa using hrounds) (free.or free')
    refine ⟨r, hrun.trans hrest, ?_⟩
    cases r with
    | entry e off =>
      obtain ⟨c, j, hmatch, rfl, rfl⟩ := hsearched
      exact ⟨c, j, .later hpassed hmatch, rfl, rfl⟩
    | missing free₁ =>
      obtain ⟨hnone, free₂, rfl, hspace⟩ := hsearched
      refine ⟨fun c j h => ?_, free'.or free₂, Option.or_assoc .., fun off hoff => ?_⟩
      · cases h with
        | here h => exact (hpassed j h.lt).2 h.named
        | later _ h => exact hnone c j h
      · cases hfree : free' with
        | some off' =>
          rw [hfree] at hoff
          exact hreports.space off (hfree.trans hoff)
        | none =>
          rw [hfree] at hoff
          obtain ⟨c, j, hfirst, rfl⟩ := hspace off hoff
          exact ⟨c, j, .later hpassed (hfull hfree) hfirst, rfl⟩

/-- A chain of the volume has fewer clusters than the loops over chains take rounds. -/
theorem length_le_maxRounds (hg : Layout g) (hl : ChainOf g d a l) (hrange : ∀ c ∈ l, InRange g c) :
    l.length ≤ maxRounds := by
  have hmarks := hg.marks
  have hsub : l ⊆ List.range (g.clusterCount + 2) :=
    fun c hc => List.mem_range.2 (hrange c hc).2
  have hle := (List.subperm_of_subset hl.nodup hsub).length_le
  rw [List.length_range] at hle
  unfold maxRounds
  omega

theorem findEntry_cases (hg : Layout g) (hl : ChainOf g d g.rootCluster l)
    (hrange : ∀ c ∈ l, InRange g c) (name : List UInt8) :
    ∃ r, findEntry g name d = some (.ok r) ∧ Searched g d name l none r :=
  findRounds_cases hg hl hrange (length_le_maxRounds hg hl hrange) none

end RadKernel.Fat
