import RadKernel.Fat.Chains
import RadKernel.Fat.Geometry
import RadKernel.Lib.Walk

/-!
# Walks over any table

The loops over chains on a volume with any contents: links may be 0, lead out of the table, or come
back. `free_chain` clears every link that it follows, so it ends; `find_entry` follows the chain of
the root directory as it is.
-/

namespace RadKernel.Fat

open Kernel Prog Buffer

variable {g : FatContext} {d d' : Disk} {name : List UInt8} {c k n rounds start : Nat}
  {free : Option Nat}

/-! ## Searching -/

section

variable (g : FatContext) (d : Disk)

/-- The entry `j` of a cluster, wherever the sectors of the cluster are. -/
def anySlot (c j : Nat) : FatDirEntry := fun i =>
  d (dataSector g c (entrySize * j / sectorSize)) (entrySize * j % sectorSize + i)

/-- The cluster has the name or the end of the directory, or there is no link to follow. -/
def Stops (name : List UInt8) (c : Nat) : Prop :=
  (∃ j < slots g, anySlot g d c j 0 = 0 ∨ Names (anySlot g d c j) name) ∨
    c < 2 ∨ isEoc (linkAt g d c) = true

/-- The links lead from the root directory to a cluster at which the search stops. -/
def SearchEnds (name : List UInt8) : Prop := ∃ n, Stops g d name ((linkAt g d)^[n] g.rootCluster)

end

theorem linkAt_lt (c : Nat) : linkAt g d c < 2 ^ 28 := Nat.mod_lt _ (by decide)

theorem readDirEntry_apply (j : Nat) :
    readDirEntry g c (entrySize * j) d = some (.ok (anySlot g d c j)) := rfl

/-- The scan goes through a cluster that has neither the name nor the end of the directory. -/
theorem scanCluster_exhausted (n k : Nat) (free : Option Nat) :
    ∃ r, scanCluster g name c n (entrySize * k) free d = some (.ok r) ∧
      ((∃ free', r = .exhausted free') ↔
        ∀ j, k ≤ j → j < k + n → anySlot g d c j 0 ≠ 0 ∧ ¬Names (anySlot g d c j) name) := by
  induction n generalizing k free with
  | zero => exact ⟨_, rfl, fun _ j _ _ => by omega, fun _ => ⟨free, rfl⟩⟩
  | succ n ih =>
    have hnext : entrySize * k + entrySize = entrySize * (k + 1) := by ring
    -- the first entry, and those after it
    have hsplit : (∀ j, k ≤ j → j < k + (n + 1) →
        anySlot g d c j 0 ≠ 0 ∧ ¬Names (anySlot g d c j) name) ↔
        (anySlot g d c k 0 ≠ 0 ∧ ¬Names (anySlot g d c k) name) ∧ ∀ j, k + 1 ≤ j →
          j < k + 1 + n → anySlot g d c j 0 ≠ 0 ∧ ¬Names (anySlot g d c j) name := by
      refine ⟨fun h => ⟨h k (by omega) (by omega), fun j hj hn => h j (by omega) (by omega)⟩,
        fun h j hj hn => ?_⟩
      rcases Nat.eq_or_lt_of_le hj with rfl | hlt
      · exact h.1
      · exact h.2 j hlt (by omega)
    rw [scanCluster, Query.bind_of_ok (readDirEntry_apply k), hsplit, hnext]
    by_cases hend : anySlot g d c k 0 = 0
    · rw [if_pos hend]
      exact ⟨_, rfl, by simp, fun h => absurd hend h.1.1⟩
    rw [if_neg hend]
    by_cases hdeleted : anySlot g d c k 0 = 0xe5
    · have hnot : ¬Names (anySlot g d c k) name := fun h => h.1.notDeleted hdeleted
      obtain ⟨r, hrun, hr⟩ := ih (k + 1) (free.or (some (entrySize * k)))
      rw [if_pos hdeleted]
      exact ⟨r, hrun, by rw [hr]; exact ⟨fun h => ⟨⟨hend, hnot⟩, h⟩, fun h => h.2⟩⟩
    rw [if_neg hdeleted]
    by_cases hlong : (anySlot g d c k).attr &&& attrLongName = attrLongName
    · have hnot : ¬Names (anySlot g d c k) name := fun h => h.1.notLongName hlong
      obtain ⟨r, hrun, hr⟩ := ih (k + 1) free
      rw [if_pos hlong]
      exact ⟨r, hrun, by rw [hr]; exact ⟨fun h => ⟨⟨hend, hnot⟩, h⟩, fun h => h.2⟩⟩
    rw [if_neg hlong]
    by_cases hname : (anySlot g d c k).name = name
    · have hnamed : Names (anySlot g d c k) name := ⟨⟨hend, hdeleted, hlong⟩, hname⟩
      rw [if_pos hname]
      exact ⟨_, rfl, by simp, fun h => absurd hnamed h.1.2⟩
    · have hnot : ¬Names (anySlot g d c k) name := fun h => hname h.2
      obtain ⟨r, hrun, hr⟩ := ih (k + 1) free
      rw [if_neg hname]
      exact ⟨r, hrun, by rw [hr]; exact ⟨fun h => ⟨⟨hend, hnot⟩, h⟩, fun h => h.2⟩⟩

/-- One round ends the search, or it goes on with the next cluster. -/
theorem findRounds_round (name : List UInt8) (c rounds : Nat) (free : Option Nat) :
    (Stops g d name c ∧ findRounds g name (rounds + 1) c free d ≠ none) ∨
    (¬Stops g d name c ∧ ∃ free', findRounds g name (rounds + 1) c free d =
      findRounds g name rounds (linkAt g d c) free' d) := by
  obtain ⟨r, hscan, hr⟩ := @scanCluster_exhausted g d name c (slots g) 0 free
  have hfound : (¬∃ free', r = .exhausted free') →
      ∃ j < slots g, anySlot g d c j 0 = 0 ∨ Names (anySlot g d c j) name := by
    intro hnot
    rw [hr] at hnot
    push Not at hnot
    obtain ⟨j, -, hj, hslot⟩ := hnot
    refine ⟨j, by simpa using hj, ?_⟩
    by_contra hboth
    rw [not_or] at hboth
    exact hboth.2 (hslot hboth.1)
  rw [findRounds, Query.bind_of_ok (show scanCluster g name c (g.clusterBytes / entrySize) 0 free d
    = some (.ok r) from hscan)]
  cases r with
  | found entry offset => exact .inl ⟨.inl (hfound (by simp)), Option.some_ne_none _⟩
  | ended free' => exact .inl ⟨.inl (hfound (by simp)), Option.some_ne_none _⟩
  | exhausted free' =>
    have hpass := hr.1 ⟨free', rfl⟩
    dsimp only
    by_cases hlow : c < 2
    · rw [Query.bind_of_error (fatEntry_low hlow)]
      exact .inl ⟨.inr (.inl hlow), Option.some_ne_none _⟩
    rw [Query.bind_of_ok (fatEntry_apply (by omega))]
    by_cases heoc : isEoc (linkAt g d c) = true
    · rw [if_pos heoc]
      exact .inl ⟨.inr (.inr heoc), Option.some_ne_none _⟩
    · rw [if_neg heoc]
      refine .inr ⟨?_, free', rfl⟩
      rintro (⟨j, hj, hslot⟩ | hlow' | heoc')
      · have hboth := hpass j (Nat.zero_le j) (by simpa using hj)
        grind
      · exact hlow hlow'
      · exact heoc heoc'

theorem findRounds_ne_none :
    findRounds g name rounds c free d ≠ none ↔ ∃ n < rounds, Stops g d name ((linkAt g d)^[n] c) := by
  induction rounds generalizing c free with
  | zero => exact ⟨fun h => absurd rfl h, fun ⟨n, hn, _⟩ => by omega⟩
  | succ rounds ih =>
    rcases findRounds_round name c rounds free with ⟨hstop, hrun⟩ | ⟨hgo, free', hrun⟩
    · exact ⟨fun _ => ⟨0, by omega, hstop⟩, fun _ => hrun⟩
    · rw [hrun, ih]
      constructor
      · rintro ⟨n, hn, hstop⟩
        exact ⟨n + 1, by omega, hstop⟩
      · rintro ⟨n, hn, hstop⟩
        cases n with
        | zero => exact absurd hstop hgo
        | succ n => exact ⟨n, by omega, hstop⟩

/-- `find_entry` returns just when the links lead to a cluster at which it stops: more rounds than
there are links are a walk that comes back. -/
theorem findEntry_ne_none : findEntry g name d ≠ none ↔ SearchEnds g d name := by
  rw [findEntry, findRounds_ne_none]
  constructor
  · rintro ⟨n, -, hstop⟩
    exact ⟨n, hstop⟩
  · intro h
    obtain ⟨n, hn, hstop⟩ := Walk.stops_within (Finset.range (2 ^ 28))
      (fun c => Finset.mem_range.2 (linkAt_lt c)) h
    rw [Finset.card_range] at hn
    exact ⟨n, by unfold maxRounds; omega, hstop⟩

/-! ## Clearing links -/

/-- A number that `free_chain` takes for a cluster. -/
def IsCluster (c : Nat) : Prop := 2 ≤ c ∧ ¬isEoc c = true

instance (c : Nat) : Decidable (IsCluster c) := inferInstanceAs (Decidable (_ ∧ _))

/-- One of the places has the byte. -/
def Covers (ps : List (Nat × Nat)) (s i : Nat) : Prop :=
  ∃ p ∈ ps, p.1 = s ∧ p.2 ≤ i ∧ i < p.2 + 4

section

variable (g : FatContext) (d : Disk) (start : Nat)

/-- The cluster that `n` links lead to. -/
def linkWalk (n : Nat) : Nat := (linkAt g d)^[n] start

/-- The link of cluster `n` of the walk was cleared as that of an earlier one. -/
def ClearedBefore (n : Nat) : Prop :=
  ∃ i < n, linkPlace g 0 (linkWalk g d start n) ∈ linkPlaces g (linkWalk g d start i)

/-- The walk comes to cluster `n` by links that it has not cleared. -/
def Clears (n : Nat) : Prop :=
  (∀ k < n, IsCluster (linkWalk g d start k) ∧ ¬ClearedBefore g d start k) ∧
    IsCluster (linkWalk g d start n)

/-- The places of the links of the first clusters of the walk. -/
def clearedPlaces (n : Nat) : List (Nat × Nat) :=
  (List.range n).flatMap fun k => linkPlaces g (linkWalk g d start k)

/-- A place in a copy of the table of a link of a cluster in the chain. -/
def TablePlace (p : Nat × Nat) : Prop :=
  ∃ n, (∀ k ≤ n, IsCluster (linkWalk g d start k)) ∧
    u32 (linkWalk g d start n * 4) / sectorSize < g.fatSize ∧
    p ∈ linkPlaces g (linkWalk g d start n)

/-- Only links in the table, of clusters in the chain, are other than before. -/
def OnlyLinks (d' : Disk) : Prop :=
  ∀ s i, d' s i ≠ d s i → ∃ p, TablePlace g d start p ∧ p.1 = s ∧ p.2 ≤ i ∧ i < p.2 + 4

/-- What is cleared is a link in the table, or it is zero already. -/
def ClearsLinks : Prop :=
  ∀ n, Clears g d start n → ∀ p ∈ linkPlaces g (linkWalk g d start n),
    TablePlace g d start p ∨ ∀ k < 4, d p.1 (p.2 + k) = 0

end

theorem linkWalk_succ (n : Nat) : linkWalk g d start (n + 1) = linkAt g d (linkWalk g d start n) :=
  Function.iterate_succ_apply' ..

variable {p : Nat × Nat} {ps qs : List (Nat × Nat)}

theorem linkPlace_aligned (hp : p ∈ linkPlaces g c) : p.2 % 4 = 0 := by
  obtain ⟨fat, -, rfl⟩ := List.mem_map.1 hp
  unfold linkPlace u32 sectorSize
  omega

theorem clearedPlaces_succ (n : Nat) : clearedPlaces g d start (n + 1) =
    clearedPlaces g d start n ++ linkPlaces g (linkWalk g d start n) := by
  simp [clearedPlaces, List.range_succ]

theorem mem_clearedPlaces :
    p ∈ clearedPlaces g d start n ↔ ∃ k < n, p ∈ linkPlaces g (linkWalk g d start k) := by
  simp [clearedPlaces]

theorem mem_linkPlaces_zero : linkPlace g 0 c ∈ linkPlaces g c :=
  List.mem_map.2 ⟨0, List.mem_range.2 g.fatCount_pos, rfl⟩

theorem covers_append {s i : Nat} : Covers (ps ++ qs) s i ↔ Covers ps s i ∨ Covers qs s i := by
  simp only [Covers, List.mem_append]
  grind

/-- The bytes of the places are zero and the others are as they were. -/
def Blanked (d : Disk) (ps : List (Nat × Nat)) (d' : Disk) : Prop :=
  ∀ s i, (Covers ps s i → d' s i = 0) ∧ (¬Covers ps s i → d' s i = d s i)

theorem stamp_blanked (d : Disk) (ps : List (Nat × Nat)) :
    Blanked d ps (stamp d (le32Bytes (0 % 2 ^ 28)) ps) := by
  induction ps generalizing d with
  | nil => exact fun s i => ⟨fun ⟨p, hp, _⟩ => (List.not_mem_nil hp).elim, fun _ => rfl⟩
  | cons p ps ih =>
    intro s i
    have hrest := ih (Function.update d p.1 (store (d p.1) p.2 (le32Bytes (0 % 2 ^ 28)))) s i
    have hcons : Covers (p :: ps) s i ↔ (p.1 = s ∧ p.2 ≤ i ∧ i < p.2 + 4) ∨ Covers ps s i := by
      simp [Covers]
    have hfirst : Function.update d p.1 (store (d p.1) p.2 (le32Bytes (0 % 2 ^ 28))) s i =
        if p.1 = s ∧ p.2 ≤ i ∧ i < p.2 + 4 then 0 else d s i := by
      by_cases hs : p.1 = s
      · subst hs
        rw [Function.update_self]
        by_cases hi : p.2 ≤ i ∧ i < p.2 + 4
        · obtain ⟨k, rfl⟩ : ∃ k, i = p.2 + k := ⟨i - p.2, by omega⟩
          rw [if_pos ⟨rfl, hi⟩, store_add]
          have hk : k < 4 := by omega
          rw [show le32Bytes (0 % 2 ^ 28) = List.replicate 4 0 by decide,
            List.getElem?_replicate_of_lt hk]
          rfl
        · rw [if_neg (by tauto)]
          by_cases hlow : i < p.2
          · exact store_below hlow
          · exact store_above (by rw [length_le32Bytes]; omega)
      · rw [Function.update_of_ne (Ne.symm hs), if_neg (by tauto)]
    rw [hcons, stamp]
    by_cases hps : Covers ps s i
    · exact ⟨fun _ => hrest.1 hps, fun h => absurd (.inr hps) h⟩
    · rw [hrest.2 hps]
      grind

theorem Blanked.append {d'' : Disk} (h : Blanked d ps d')
    (h' : Blanked d' qs d'') : Blanked d (ps ++ qs) d'' := by
  intro s i
  have h₁ := h s i
  have h₂ := h' s i
  rw [covers_append]
  by_cases hqs : Covers qs s i
  · exact ⟨fun _ => h₂.1 hqs, fun hnot => absurd (.inr hqs) hnot⟩
  · rw [h₂.2 hqs]
    grind

theorem Blanked.linkAt (h : Blanked d (clearedPlaces g d start n) d') (c : Nat) :
    linkAt g d' c =
      if linkPlace g 0 c ∈ clearedPlaces g d start n then 0 else Fat.linkAt g d c := by
  have haligned : (linkPlace g 0 c).2 % 4 = 0 := linkPlace_aligned mem_linkPlaces_zero
  split_ifs with hmem
  · have hzero : ∀ k < 4, d' (linkPlace g 0 c).1 ((linkPlace g 0 c).2 + k) = 0 :=
      fun k hk => (h _ _).1 ⟨_, hmem, rfl, by omega, by omega⟩
    rw [Fat.linkAt, le32, le16, le16, hzero 1 (by omega), hzero 2 (by omega),
      show (linkPlace g 0 c).2 + 2 + 1 = (linkPlace g 0 c).2 + 3 from rfl, hzero 3 (by omega),
      show d' (linkPlace g 0 c).1 (linkPlace g 0 c).2 = 0 from hzero 0 (by omega)]
    rfl
  · have hkept : ∀ k < 4, d' (linkPlace g 0 c).1 ((linkPlace g 0 c).2 + k) =
        d (linkPlace g 0 c).1 ((linkPlace g 0 c).2 + k) := by
      intro k hk
      refine (h _ _).2 ?_
      rintro ⟨p, hp, hsector, hlow, hhigh⟩
      obtain ⟨m, hm, hplace⟩ := mem_clearedPlaces.1 hp
      have := linkPlace_aligned hplace
      have hoffset : p.2 = (linkPlace g 0 c).2 := by omega
      exact hmem (Prod.ext hsector hoffset ▸ hp)
    rw [Fat.linkAt, Fat.linkAt, le32_congr hkept]

/-! ## Freeing -/

/-- All links up to cluster `n` are followed as they were at the start. -/
def FollowsTo (g : FatContext) (d : Disk) (start n : Nat) : Prop :=
  ∀ k < n, IsCluster (linkWalk g d start k) ∧ ¬ClearedBefore g d start k

theorem FollowsTo.clears (h : FollowsTo g d start n) (hk : k < n) : Clears g d start k :=
  ⟨fun i hi => h i (by omega), (h k hk).1⟩

/-- The walk does not come to a cluster twice before it stops, so it is not long. -/
theorem FollowsTo.le (h : FollowsTo g d start n) : n ≤ fatEoc := by
  have hinj : Set.InjOn (linkWalk g d start) (Finset.range n) := by
    have hne : ∀ i j, i < j → j < n → linkWalk g d start i ≠ linkWalk g d start j := by
      intro i j hij hj hsame
      refine (h j hj).2 ⟨i, hij, ?_⟩
      rw [hsame]
      exact mem_linkPlaces_zero
    intro i hi j hj hsame
    rw [Finset.mem_coe, Finset.mem_range] at hi hj
    rcases Nat.lt_trichotomy i j with hlt | heq | hlt
    · exact absurd hsame (hne i j hlt hj)
    · exact heq
    · exact absurd hsame.symm (hne j i hlt hi)
  have hmaps : ∀ k ∈ Finset.range n, linkWalk g d start k ∈ Finset.range fatEoc := by
    intro k hk
    have hcluster := (h k (Finset.mem_range.1 hk)).1.2
    rw [isEoc, decide_eq_true_eq, Nat.not_le] at hcluster
    exact Finset.mem_range.2 hcluster
  have hcard := Finset.card_le_card_of_injOn _ hmaps hinj
  simpa using hcard

theorem freeRounds_clears (hrounds : fatEoc + 3 ≤ n + rounds) (hfollows : FollowsTo g d start n)
    (hblank : Blanked d (clearedPlaces g d start n) d') :
    ∃ N d'', freeRounds g rounds (linkWalk g d start n) d' = some (.ok (), d'') ∧
      (∀ k, Clears g d start k ↔ k < N) ∧ Blanked d (clearedPlaces g d start N) d'' := by
  induction rounds generalizing n d' with
  | zero =>
    have := hfollows.le
    omega
  | succ rounds ih =>
    have hn := hfollows.le
    -- the clusters are those before `N` when the walk goes no further
    have hends : ∀ N, FollowsTo g d start N → ¬Clears g d start N →
        ∀ k, Clears g d start k ↔ k < N := by
      intro N hN hstop k
      refine ⟨fun hk => ?_, hN.clears⟩
      by_contra hge
      exact hstop ⟨fun i hi => hN i hi, by
        rcases Nat.eq_or_lt_of_le (Nat.not_lt.1 hge) with rfl | hlt
        · exact hk.2
        · exact (hk.1 N hlt).1⟩
    unfold freeRounds
    by_cases hcluster : IsCluster (linkWalk g d start n)
    case neg =>
      have hstop : (decide (linkWalk g d start n < 2) || isEoc (linkWalk g d start n)) = true := by
        unfold IsCluster at hcluster
        grind
      rw [if_pos hstop]
      exact ⟨n, d', rfl, hends n hfollows fun h => hcluster h.2, hblank⟩
    have hgo : ¬(decide (linkWalk g d start n < 2) || isEoc (linkWalk g d start n)) = true := by
      unfold IsCluster at hcluster
      grind
    have hread := fatEntry_apply (g := g) (d := d') hcluster.1
    have hset := setFatEntry_apply (g := g) (d := d') (v := 0) hcluster.1
    have hblank' : Blanked d (clearedPlaces g d start (n + 1))
        (stamp d' (le32Bytes (0 % 2 ^ 28)) (linkPlaces g (linkWalk g d start n))) := by
      rw [clearedPlaces_succ]
      exact hblank.append (stamp_blanked _ _)
    have hlink := hblank.linkAt (linkWalk g d start n)
    simp only [if_neg hgo, bind_apply, Prog.query, hread, Option.map_some, hset]
    by_cases hcleared : ClearedBefore g d start n
    · -- the link is 0 by now
      have hmem : linkPlace g 0 (linkWalk g d start n) ∈ clearedPlaces g d start n :=
        mem_clearedPlaces.2 hcleared
      rw [if_pos hmem] at hlink
      obtain ⟨rounds, rfl⟩ : ∃ r, rounds = r + 1 := ⟨rounds - 1, by omega⟩
      rw [hlink]
      refine ⟨n + 1, _, rfl, fun k => ⟨fun hk => ?_, fun hk => ?_⟩, hblank'⟩
      · by_contra hge
        exact (hk.1 n (by omega)).2 hcleared
      · rcases Nat.lt_succ_iff_lt_or_eq.1 hk with hlt | rfl
        · exact hfollows.clears hlt
        · exact ⟨hfollows, hcluster⟩
    · have hmem : linkPlace g 0 (linkWalk g d start n) ∉ clearedPlaces g d start n :=
        fun h => hcleared (mem_clearedPlaces.1 h)
      have hnext : FollowsTo g d start (n + 1) := by
        intro k hk
        rcases Nat.lt_succ_iff_lt_or_eq.1 hk with hlt | rfl
        · exact hfollows k hlt
        · exact ⟨hcluster, hcleared⟩
      rw [if_neg hmem, ← linkWalk_succ] at hlink
      rw [hlink]
      by_cases heoc : isEoc (linkWalk g d start (n + 1)) = true
      · rw [if_pos heoc]
        exact ⟨n + 1, _, rfl, hends _ hnext fun h => h.2.2 heoc, hblank'⟩
      · rw [if_neg heoc]
        exact ih (by omega) hnext hblank'

/-- `free_chain` returns from every table, and clears the links that `Clears` describes. -/
theorem freeChain_clears (g : FatContext) (d : Disk) (start : Nat) :
    ∃ N d', freeChain g start d = some (.ok (), d') ∧ (∀ k, Clears g d start k ↔ k < N) ∧
      Blanked d (clearedPlaces g d start N) d' := by
  refine freeRounds_clears (n := 0) (by decide) (fun k hk => by omega) fun s i => ?_
  exact ⟨fun ⟨p, hp, _⟩ => (List.not_mem_nil hp).elim, fun _ => rfl⟩

theorem onlyLinks_iff {N : Nat} (hclears : ∀ k, Clears g d start k ↔ k < N)
    (hblank : Blanked d (clearedPlaces g d start N) d') :
    OnlyLinks g d start d' ↔ ClearsLinks g d start := by
  constructor
  · intro honly n hn p hp
    by_contra hbad
    push Not at hbad
    obtain ⟨hplace, k, hk, hbyte⟩ := hbad
    have hcovers : Covers (clearedPlaces g d start N) p.1 (p.2 + k) :=
      ⟨p, mem_clearedPlaces.2 ⟨n, (hclears n).1 hn, hp⟩, rfl, by omega, by omega⟩
    obtain ⟨q, hq, hsector, hlow, hhigh⟩ := honly p.1 (p.2 + k) (by
      rw [(hblank _ _).1 hcovers]
      exact Ne.symm hbyte)
    -- both places are at multiples of four
    have hoffset : q.2 = p.2 := by
      obtain ⟨_, -, -, hq'⟩ := hq
      have := linkPlace_aligned hp
      have := linkPlace_aligned hq'
      omega
    exact hplace (Prod.ext hsector hoffset ▸ hq)
  · intro hlinks s i hne
    by_cases hcovers : Covers (clearedPlaces g d start N) s i
    · obtain ⟨p, hp, rfl, hlow, hhigh⟩ := hcovers
      obtain ⟨n, hn, hplace⟩ := mem_clearedPlaces.1 hp
      rcases hlinks n ((hclears n).2 hn) p hplace with hp' | hzero
      · exact ⟨p, hp', rfl, hlow, hhigh⟩
      · have hbyte := hzero (i - p.2) (by omega)
        rw [Nat.add_sub_of_le hlow] at hbyte
        rw [(hblank _ _).1 ⟨p, hp, rfl, hlow, hhigh⟩, hbyte] at hne
        exact absurd rfl hne
    · exact absurd ((hblank s i).2 hcovers) hne

/-! ## All walks -/

/-- `find_entry`, `free_chain` and `cluster_at` return, and `free_chain` changes only links of its
chain. -/
structure WalksEnd (g : FatContext) (s : FatState) (name : List UInt8) (start : Nat)
    (h : Fin maxOpenFiles) (index : Nat) (allocate : Bool) : Prop where
  find : findEntry g name s.disk ≠ none
  free : ∃ d', freeChain g start s.disk = some (.ok (), d') ∧ OnlyLinks g s.disk start d'
  cluster : clusterAt g h index allocate s ≠ none

/-- On every volume: the walks end exactly when the links of the root directory lead to a cluster
at which the search stops, and `free_chain` clears only links in the table or what is zero. -/
theorem walksEnd_iff (g : FatContext) (s : FatState) (name : List UInt8) (start : Nat)
    (h : Fin maxOpenFiles) (index : Nat) (allocate : Bool) :
    WalksEnd g s name start h index allocate ↔
      SearchEnds g s.disk name ∧ ClearsLinks g s.disk start := by
  obtain ⟨N, d', hrun, hclears, hblank⟩ := freeChain_clears g s.disk start
  have honly := onlyLinks_iff hclears hblank
  obtain ⟨r, t, hcluster⟩ := @clusterAt_returns g index h allocate s
  constructor
  · rintro ⟨hfind, ⟨d'', hrun', hlinks⟩, -⟩
    have hsame : d' = d'' := by
      rw [hrun] at hrun'
      cases hrun'
      rfl
    subst hsame
    exact ⟨findEntry_ne_none.1 hfind, honly.1 hlinks⟩
  · rintro ⟨hfind, hlinks⟩
    exact ⟨findEntry_ne_none.2 hfind, ⟨d', hrun, honly.2 hlinks⟩, by simp [hcluster]⟩

/-! ## Broken volumes -/

/-- The root directory is cluster 2, full, and linked to itself. -/
def loopDisk : Disk := fun s =>
  if s = 1 ∨ s = 2 then store (fun _ => 0) 8 (le32Bytes 2)
  else if s = 3 then fun _ => 65
  else fun _ => 0

/-- The search for a name that is not there never ends. -/
theorem not_walksEnd_loop :
    ¬ ∀ g s name start h index allocate, WalksEnd g s name start h index allocate := by
  intro hall
  have hfind := (hall demoContext { disk := loopDisk } (letterName 1) 0 firstFile 0 false).find
  obtain ⟨n, hstop⟩ := findEntry_ne_none.1 hfind
  have hlink : linkAt demoContext loopDisk 2 = 2 := by decide +kernel
  have hback : (linkAt demoContext loopDisk)^[n] 2 = 2 := Function.iterate_fixed hlink n
  have hslots : ∀ j < 16, anySlot demoContext loopDisk 2 j 0 ≠ 0 ∧
      (anySlot demoContext loopDisk 2 j).name ≠ letterName 1 := by decide +kernel
  rw [show demoContext.rootCluster = 2 from rfl, hback] at hstop
  rcases hstop with ⟨j, hj, hzero | hnamed⟩ | hlow | heoc
  · exact (hslots j hj).1 hzero
  · exact (hslots j hj).2 hnamed.2
  · omega
  · rw [hlink] at heoc
    revert heoc
    decide

end RadKernel.Fat
