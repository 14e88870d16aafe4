import RadKernel.Fat.OneName

/-!
# The bytes of a file

A file is the bytes of its clusters, in the order of its chain. Reading takes them out, and writing
puts them in after it made the chain long enough with clusters of zeros.
-/

namespace RadKernel.Fat

open Kernel Prog Buffer Function List

variable {g : FatContext} {d d' : Disk} {first first' a c x k n p position done index rounds : Nat}
  {l l' : List Nat} {h : Fin maxOpenFiles} {s t : FatState} {chunk bytes : List UInt8}

/-! ## Positions -/

/-- The sector that has a position of a file, in cluster `c`. -/
def byteSector (g : FatContext) (c p : Nat) : Nat :=
  firstSector g c + p % g.clusterBytes / sectorSize

/-- The bytes of a file that has the clusters `l`. -/
def fileByte (g : FatContext) (d : Disk) (l : List Nat) (p : Nat) : UInt8 :=
  match l[p / g.clusterBytes]? with
  | some c => d (byteSector g c p) (p % g.clusterBytes % sectorSize)
  | none => 0

theorem clusterBytes_pos (g : FatContext) : 0 < g.clusterBytes :=
  Nat.mul_pos g.sectorsPerCluster_pos (by decide)

theorem byteSector_inCluster (c p : Nat) : InCluster g c (byteSector g c p) := by
  have hlt : p % g.clusterBytes / sectorSize < g.sectorsPerCluster := by
    refine Nat.div_lt_of_lt_mul ?_
    rw [Nat.mul_comm]
    exact Nat.mod_lt _ (clusterBytes_pos g)
  exact ⟨Nat.le_add_right _ _, by unfold byteSector; omega⟩

theorem sector_eq (hg : Layout g) (hc : InRange g c) (p : Nat) :
    u32 (clusterFirstSector g c + p % g.clusterBytes / sectorSize) = byteSector g c p := by
  have hin := byteSector_inCluster (g := g) c p
  exact hg.u32_sector hc (by unfold InCluster byteSector at hin; omega)

variable {i : Nat} {d'' : Disk} {l'' : List Nat}

theorem place_add (h : p % g.clusterBytes % sectorSize + i < sectorSize) :
    (p + i) / g.clusterBytes = p / g.clusterBytes ∧
      (p + i) % g.clusterBytes = p % g.clusterBytes + i := by
  have hin := (byteSector_inCluster (g := g) 0 p).2
  have hcluster : p % g.clusterBytes + i < g.clusterBytes := by
    have hsize : g.clusterBytes = g.sectorsPerCluster * sectorSize := rfl
    unfold byteSector at hin
    unfold sectorSize at *
    omega
  have hsplit : p + i = p % g.clusterBytes + i + g.clusterBytes * (p / g.clusterBytes) := by
    have := Nat.div_add_mod p g.clusterBytes
    omega
  rw [hsplit, Nat.add_mul_div_left _ _ (clusterBytes_pos g), Nat.add_mul_mod_self_left,
    Nat.div_eq_of_lt hcluster, Nat.mod_eq_of_lt hcluster]
  exact ⟨Nat.zero_add _, rfl⟩

theorem fileByte_of_some (hc : l[p / g.clusterBytes]? = some c) :
    fileByte g d l p = d (byteSector g c p) (p % g.clusterBytes % sectorSize) := by
  rw [fileByte, hc]

theorem fileByte_add (hc : l[p / g.clusterBytes]? = some c)
    (h : p % g.clusterBytes % sectorSize + i < sectorSize) :
    fileByte g d l (p + i) =
      d (byteSector g c p) (p % g.clusterBytes % sectorSize + i) := by
  obtain ⟨hdiv, hmod⟩ := place_add h
  have hsector : (p % g.clusterBytes + i) / sectorSize = p % g.clusterBytes / sectorSize := by
    unfold sectorSize at *
    omega
  have hoffset : (p % g.clusterBytes + i) % sectorSize = p % g.clusterBytes % sectorSize + i := by
    unfold sectorSize at *
    omega
  rw [fileByte_of_some (by rwa [hdiv]), byteSector, byteSector, hmod, hsector, hoffset]

theorem fileByte_congr (hsame : ∀ c ∈ l, ∀ s, InCluster g c s → d' s = d s) :
    fileByte g d' l = fileByte g d l := by
  funext p
  unfold fileByte
  cases hc : l[p / g.clusterBytes]? with
  | none => rfl
  | some c =>
    have hsector := hsame c (mem_of_getElem? hc) _ (byteSector_inCluster c p)
    exact congrFun hsector _

/-- A cluster of zeros at the end makes no difference. -/
theorem fileByte_append (hzero : ∀ s, InCluster g x s → d s = fun _ => 0) :
    fileByte g d (l ++ [x]) = fileByte g d l := by
  funext p
  unfold fileByte
  rcases Nat.lt_trichotomy (p / g.clusterBytes) l.length with hlt | heq | hgt
  · rw [List.getElem?_append_left hlt]
  · rw [List.getElem?_append_right (by omega), heq, Nat.sub_self,
      List.getElem?_eq_none (Nat.le_refl _)]
    simp [hzero _ (byteSector_inCluster x p)]
  · rw [List.getElem?_eq_none (by simp; omega), List.getElem?_eq_none (by omega)]

theorem fileByte_store (hl : l.Nodup) (hrange : ∀ x ∈ l, InRange g x)
    (hc : l[p / g.clusterBytes]? = some c)
    (hfit : p % g.clusterBytes % sectorSize + chunk.length ≤ sectorSize) :
    fileByte g (update d (byteSector g c p)
      (store (d (byteSector g c p)) (p % g.clusterBytes % sectorSize) chunk)) l =
      store (fileByte g d l) p chunk := by
  funext i
  by_cases hsame : i / g.clusterBytes = p / g.clusterBytes ∧
      i % g.clusterBytes / sectorSize = p % g.clusterBytes / sectorSize
  · obtain ⟨hdiv, hsector⟩ := hsame
    have hi : l[i / g.clusterBytes]? = some c := by rwa [hdiv]
    have hbyte : byteSector g c i = byteSector g c p := by rw [byteSector, hsector, byteSector]
    rw [fileByte_of_some hi, hbyte, update_self, store, store, fileByte_of_some hi, hbyte]
    have hp := Nat.div_add_mod p g.clusterBytes
    have hi := Nat.div_add_mod i g.clusterBytes
    rw [hdiv] at hi
    have hle : p % g.clusterBytes % sectorSize ≤ i % g.clusterBytes % sectorSize ↔ p ≤ i := by
      unfold sectorSize at *
      omega
    have hsub : i % g.clusterBytes % sectorSize - p % g.clusterBytes % sectorSize = i - p := by
      unfold sectorSize at *
      omega
    simp only [hle, hsub]
  · have hout : store (fileByte g d l) p chunk i = fileByte g d l i := by
      by_cases hlow : i < p
      · exact store_below hlow
      refine store_above (Nat.not_lt.1 fun hhigh => hsame ?_)
      obtain ⟨m, rfl⟩ : ∃ m, i = p + m := ⟨i - p, by omega⟩
      obtain ⟨hdiv, hmod⟩ := place_add (g := g) (p := p) (i := m) (by omega)
      refine ⟨hdiv, ?_⟩
      unfold sectorSize at *
      omega
    rw [hout]
    cases hi : l[i / g.clusterBytes]? with
    | none => rw [fileByte, fileByte, hi]
    | some c' =>
      rw [fileByte_of_some hi, fileByte_of_some hi, update_of_ne]
      intro heq
      -- a sector is in one cluster, which is in the chain once
      have hin := byteSector_inCluster (g := g) c p
      have hc' := hrange c' (mem_of_getElem? hi)
      have hcc := (heq ▸ byteSector_inCluster c' i).unique hin hc'.1
        (hrange c (mem_of_getElem? hc)).1
      subst hcc
      obtain ⟨hi', hival⟩ := List.getElem?_eq_some_iff.1 hi
      obtain ⟨hp', hpval⟩ := List.getElem?_eq_some_iff.1 hc
      have hdiv := (List.Nodup.getElem_inj_iff hl).1 (hival.trans hpval.symm)
      unfold byteSector at heq
      exact hsame ⟨hdiv, by omega⟩

/-! ## Chains that grow -/

/-- The root directory, its link included, is as it was. -/
structure SameRoot (g : FatContext) (d d' : Disk) : Prop where
  link : links g d' g.rootCluster = links g d g.rootCluster
  data : ∀ s, InCluster g g.rootCluster s → d' s = d s

theorem SameRoot.refl (d : Disk) : SameRoot g d d := ⟨rfl, fun _ _ => rfl⟩

theorem SameRoot.trans (h : SameRoot g d d') (h' : SameRoot g d' d'') : SameRoot g d d'' :=
  ⟨h'.link.trans h.link, fun s hs => (h'.data s hs).trans (h.data s hs)⟩

/-- A file that begins with cluster `first`, 0 for none, has the clusters `l`. -/
structure Clusters (g : FatContext) (d : Disk) (first : Nat) (l : List Nat) : Prop where
  chain : first = 0 ∧ l = [] ∨ ChainOf g d first l
  range : ∀ x ∈ l, InRange g x
  apart : g.rootCluster ∉ l

namespace Clusters

section
variable (hl : Clusters g d first l)
include hl

theorem nodup : l.Nodup := by
  rcases hl.chain with ⟨-, rfl⟩ | hchain
  · exact nodup_nil
  · exact hchain.nodup

theorem chainOf (hne : first ≠ 0) : ChainOf g d first l :=
  hl.chain.resolve_left fun h => hne h.1

theorem eq_nil (hzero : first = 0) : l = [] := by
  rcases hl.chain with ⟨-, rfl⟩ | hchain
  · rfl
  · have hrange := hl.range _ hchain.head_mem
    rw [hzero] at hrange
    exact absurd hrange.1 (by decide)

theorem first_ne (hc : c ∈ l) : first ≠ 0 := by
  intro hzero
  rw [hl.eq_nil hzero] at hc
  exact absurd hc not_mem_nil

theorem congr (hlinks : ∀ x ∈ l, links g d' x = links g d x) : Clusters g d' first l :=
  ⟨hl.chain.imp_right fun hchain => hchain.congr hlinks, hl.range, hl.apart⟩

end

end Clusters

theorem links_taken (hg : Layout g) (hx : InRange g x) :
    links g (taken g d x) = update (links g d) x fatEoc := by
  rw [taken, sameTable_zeroed.links hg, links_setNext hg hx (by decide)]

theorem taken_zero {s : Nat} (hs : InCluster g x s) : taken g d x s = fun _ => 0 := if_pos hs

/-- Taking a cluster leaves the sectors of the others. -/
theorem taken_data (hg : Layout g) (hx : InRange g x) (hc : InRange g c) (hne : c ≠ x) {s : Nat}
    (hs : InCluster g c s) : taken g d x s = d s := by
  rw [taken, zeroed_data hx hc hne hs, setNext_data hg hx hs.data]

theorem sameRoot_taken (hg : Layout g) (hroot : links g d g.rootCluster ≠ 0) (hx : InRange g x)
    (hfree : links g d x = 0) : SameRoot g d (taken g d x) := by
  have hne : g.rootCluster ≠ x := by
    rintro rfl
    exact hroot hfree
  refine ⟨?_, fun s hs => taken_data hg hx (inRange_of_links hroot) hne hs⟩
  rw [links_taken hg hx, update_of_ne hne]

/-- What `cluster_at` leaves: the chain may be longer, by clusters of zeros. -/
structure Grown (g : FatContext) (d : Disk) (first : Nat) (l : List Nat) (d' : Disk) (first' : Nat)
    (l' : List Nat) : Prop where
  clusters : Clusters g d' first' l'
  longer : l <+: l'
  bytes : fileByte g d' l' = fileByte g d l
  root : SameRoot g d d'

theorem Grown.refl (hl : Clusters g d first l) : Grown g d first l d first l :=
  ⟨hl, prefix_rfl, rfl, SameRoot.refl d⟩

theorem Grown.trans {first'' : Nat}
    (h : Grown g d first l d' first' l') (h' : Grown g d' first' l' d'' first'' l'') :
    Grown g d first l d'' first'' l'' :=
  ⟨h'.clusters, h.longer.trans h'.longer, h'.bytes.trans h.bytes, h.root.trans h'.root⟩

section
variable (hg : Layout g) (hroot : links g d g.rootCluster ≠ 0)
include hg hroot

/-- The first cluster of a file. -/
theorem grown_start (hx : InRange g x)
    (hfree : links g d x = 0) : Grown g d 0 [] (taken g d x) x [x] := by
  have hlink : links g (taken g d x) x = fatEoc := by
    rw [links_taken hg hx, update_self]
  refine ⟨⟨.inr (.last (by rw [hlink]; rfl)), by simpa using hx, ?_⟩, nil_prefix, ?_,
    sameRoot_taken hg hroot hx hfree⟩
  · intro hmem
    rw [List.mem_singleton.1 hmem] at hroot
    exact hroot hfree
  · exact fileByte_append (l := []) fun s hs => taken_zero hs

theorem grown_link (hl : Clusters g d first l) (ha : a ∈ l) (hlast : isEoc (links g d a) = true)
    (hx : InRange g x) (hfree : links g d x = 0) :
    Grown g d first l (setNext g (taken g d x) a x) first (l ++ [x]) := by
  have harange := hl.range a ha
  have hchain := hl.chainOf (hl.first_ne ha)
  have hxl : x ∉ l := fun hmem => links_ne_zero hchain hl.range hmem hfree
  have hmarks := hg.marks
  have hlt := hx.2
  have hlinks : links g (setNext g (taken g d x) a x) =
      update (update (links g d) x fatEoc) a x := by
    rw [links_setNext hg harange (by omega), links_taken hg hx]
  have hax : a ≠ x := fun heq => hxl (heq ▸ ha)
  have hroota : g.rootCluster ≠ a := fun heq => hl.apart (heq ▸ ha)
  have hrootx : g.rootCluster ≠ x := by
    rintro rfl
    exact hroot hfree
  refine ⟨⟨.inr ?_, ?_, by simp [hl.apart, hrootx]⟩, prefix_append l [x], ?_, ?_, ?_⟩
  · refine hchain.grow ha hlast hxl (hg.not_isEoc hx) (fun y hy hya => ?_) ?_ ?_
    · have hyx : y ≠ x := fun heq => hxl (heq ▸ hy)
      rw [hlinks, update_of_ne hya, update_of_ne hyx]
    · rw [hlinks, update_self]
    · rw [hlinks, update_of_ne hax.symm, update_self]
      rfl
  · intro y hy
    rcases List.mem_append.1 hy with hy | hy
    · exact hl.range y hy
    · rwa [List.mem_singleton.1 hy]
  · rw [fileByte_append fun s hs => by rw [setNext_data hg harange hs.data, taken_zero hs]]
    refine fileByte_congr fun c hc s hs => ?_
    have hcx : c ≠ x := fun heq => hxl (heq ▸ hc)
    rw [setNext_data hg harange hs.data, taken_data hg hx (hl.range c hc) hcx hs]
  · rw [hlinks, update_of_ne hroota, update_of_ne hrootx]
  · intro s hs
    rw [setNext_data hg harange hs.data, taken_data hg hx (inRange_of_links hroot) hrootx hs]

/-- `cluster_at` with allocation goes on from cluster `k` of the chain, which it makes longer. -/
theorem followChain_grown (hl : Clusters g d first l) (hk : l[k]? = some c)
    (hrun : followChain g true n c d = some (.ok x, d')) :
    ∃ l', Grown g d first l d' first l' ∧ l'[k + n]? = some x := by
  induction n generalizing k c d l with
  | zero =>
    cases hrun
    exact ⟨l, Grown.refl hl, hk⟩
  | succ n ih =>
    have hc := mem_of_getElem? hk
    have hentry := @fatEntry_eq g d c hg (hl.range c hc)
    rw [← links_of_inRange (hl.range c hc)] at hentry
    simp only [followChain, bind_apply, Prog.query, hentry, Option.map_some] at hrun
    rcases (hl.chainOf (hl.first_ne hc)).getElem?_succ hk with ⟨hend, hlength⟩ | ⟨hgo, hnext⟩
    · simp only [if_pos hend, if_true, bind_apply] at hrun
      rcases allocateCluster_cases hg d with ⟨y, hy, hfree, htake⟩ | hfull
      · have hset := @setFatEntry_eq g (taken g d y) c y hg (hl.range c hc)
        simp only [htake, hset] at hrun
        have hgrown := grown_link hg hroot hl hc hend hy hfree
        obtain ⟨l', hgrown', hx⟩ := ih (k := k + 1) (by rwa [hgrown.root.link]) hgrown.clusters
          (by rw [← hlength]; simp) hrun
        exact ⟨l', hgrown.trans hgrown', by rwa [Nat.add_right_comm, Nat.add_assoc] at hx⟩
      · simp only [hfull] at hrun
        cases hrun
    · simp only [if_neg hgo] at hrun
      obtain ⟨l', hgrown, hx⟩ := ih hroot hl hnext hrun
      exact ⟨l', hgrown, by rwa [Nat.add_right_comm, Nat.add_assoc] at hx⟩

end

theorem followChain_read (hg : Layout g) (hl : Clusters g d first l) (hk : l[k]? = some c)
    (hx : l[k + n]? = some x) : followChain g false n c d = some (.ok x, d) := by
  induction n generalizing k c with
  | zero =>
    obtain rfl := Option.some.inj (hk.symm.trans hx)
    rfl
  | succ n ih =>
    have hc := mem_of_getElem? hk
    have hentry := @fatEntry_eq g d c hg (hl.range c hc)
    rw [← links_of_inRange (hl.range c hc)] at hentry
    simp only [followChain, bind_apply, Prog.query, hentry, Option.map_some]
    rcases (hl.chainOf (hl.first_ne hc)).getElem?_succ hk with ⟨-, hlength⟩ | ⟨hgo, hnext⟩
    · obtain ⟨hlt, -⟩ := List.getElem?_eq_some_iff.1 hx
      omega
    · rw [if_neg hgo]
      exact ih hnext (by rwa [Nat.add_right_comm, Nat.add_assoc])

theorem clusterAt_read (hg : Layout g) (hl : Clusters g s.disk (s.files h).firstCluster l)
    (hx : l[index]? = some x) : clusterAt g h index false s = some (.ok x, s) := by
  have hne := hl.first_ne (mem_of_getElem? hx)
  have hfollow := followChain_read hg hl (hl.chainOf hne).getElem?_zero (by rwa [Nat.zero_add])
  rw [clusterAt, bind_apply, read_apply]
  dsimp only
  rw [if_neg hne, withDisk, Prog.focus, hfollow]
  rfl

/-- The state after a call that made the chain of a handle longer. -/
structure Extended (g : FatContext) (h : Fin maxOpenFiles) (s : FatState) (l : List Nat)
    (t : FatState) (l' : List Nat) : Prop where
  grown : Grown g s.disk (s.files h).firstCluster l t.disk (t.files h).firstCluster l'
  files : t.files = Function.update s.files h
    { s.files h with firstCluster := (t.files h).firstCluster }

theorem clusterAt_extended (hg : Layout g) (hroot : links g s.disk g.rootCluster ≠ 0)
    (hl : Clusters g s.disk (s.files h).firstCluster l)
    (hrun : clusterAt g h index true s = some (.ok x, t)) :
    ∃ l', Extended g h s l t l' ∧ l'[index]? = some x := by
  have hfollow : ∀ {s : FatState} {l : List Nat}, links g s.disk g.rootCluster ≠ 0 →
      Clusters g s.disk (s.files h).firstCluster l → (s.files h).firstCluster ≠ 0 →
      withDisk (followChain g true index (s.files h).firstCluster) s = some (.ok x, t) →
      ∃ l', Extended g h s l t l' ∧ l'[index]? = some x := by
    intro s l hroot hl hne hrun
    obtain ⟨⟨r, d'⟩, hchain, heq⟩ := Option.map_eq_some_iff.1 hrun
    cases heq
    obtain ⟨l', hgrown, hx⟩ :=
      followChain_grown hg hroot hl (hl.chainOf hne).getElem?_zero hchain
    exact ⟨l', ⟨hgrown, (update_eq_self h s.files).symm⟩, by rwa [Nat.zero_add] at hx⟩
  rw [clusterAt, bind_apply, read_apply] at hrun
  dsimp only at hrun
  by_cases hzero : (s.files h).firstCluster = 0
  · obtain rfl := hl.eq_nil hzero
    rw [if_pos hzero, if_pos rfl, bind_apply, withDisk, Prog.focus] at hrun
    rcases allocateCluster_cases hg s.disk with ⟨y, hy, hfree, htake⟩ | hfull
    · rw [htake] at hrun
      set u : FatState :=
        { disk := taken g s.disk y
          files := update s.files h { s.files h with firstCluster := y } } with hu
      have hgrown := grown_start hg hroot hy hfree
      have hself : u.files h = { s.files h with firstCluster := y } := update_self ..
      have hy' : (u.files h).firstCluster = y := by rw [hself]
      have hclusters : Clusters g u.disk (u.files h).firstCluster [y] := by
        rw [hy']
        exact hgrown.clusters
      have hroot' : links g u.disk g.rootCluster ≠ 0 := by
        rw [hu, hgrown.root.link]
        exact hroot
      obtain ⟨l', ⟨hgrown', hfiles⟩, hx⟩ := hfollow hroot' hclusters
        (hclusters.first_ne (mem_singleton_self y)) (by rwa [hy'])
      rw [hy'] at hgrown'
      refine ⟨l', ⟨?_, ?_⟩, hx⟩
      · rw [hzero]
        exact hgrown.trans hgrown'
      · rw [hself, hu, Function.update_idem] at hfiles
        exact hfiles
    · rw [hfull] at hrun
      cases hrun
  · rw [if_neg hzero] at hrun
    exact hfollow hroot hl hzero hrun

/-- Freeing a chain leaves the data and the links of other clusters. -/
theorem freeRounds_chain (hg : Layout g) (hl : ChainOf g d c l) (hrange : ∀ x ∈ l, InRange g x)
    (hrounds : l.length ≤ rounds) :
    ∃ d', freeRounds g rounds c d = some (.ok (), d') ∧
      (∀ s, g.firstDataSector ≤ s → d' s = d s) ∧ ∀ x ∉ l, links g d' x = links g d x := by
  induction rounds generalizing c d l with
  | zero =>
    have := length_pos_of_mem hl.head_mem
    omega
  | succ rounds ih =>
    have hc := hrange c hl.head_mem
    have hentry := @fatEntry_eq g d c hg hc
    have hset := @setFatEntry_eq g d c 0 hg hc
    have hlinks := links_setNext hg hc (d := d) (v := 0) (by decide)
    have hgo : ¬((decide (c < 2) || isEoc c) = true) := by
      have hge := hc.1
      have heoc := hg.not_isEoc hc
      simp only [Bool.or_eq_true, decide_eq_true_eq, not_or]
      exact ⟨by omega, heoc⟩
    rw [← links_of_inRange hc] at hentry
    simp only [freeRounds, if_neg hgo, bind_apply, Prog.query, hentry, Option.map_some, hset]
    have hdata : ∀ s, g.firstDataSector ≤ s → setNext g d c 0 s = d s :=
      fun s hs => setNext_data hg hc hs
    have hnodup := hl.nodup
    cases hl with
    | last hstop =>
      rw [if_pos hstop]
      refine ⟨_, rfl, hdata, fun x hx => ?_⟩
      rw [hlinks, update_of_ne (by simpa using hx)]
    | @link _ tail hcontinue htail =>
      obtain ⟨hnot, -⟩ := List.nodup_cons.1 hnodup
      rw [if_neg hcontinue]
      obtain ⟨d', hrun, hdata', hlinks'⟩ := ih
        (htail.congr fun x hx => by
          have hne : x ≠ c := fun heq => hnot (heq ▸ hx)
          rw [hlinks, update_of_ne hne])
        (fun x hx => hrange x (by simp [hx])) (by simpa using hrounds)
      refine ⟨d', hrun, fun s hs => (hdata' s hs).trans (hdata s hs), fun x hx => ?_⟩
      rw [hlinks' x fun hmem => hx (by simp [hmem]), hlinks,
        update_of_ne fun heq => hx (by simp [heq])]

/-- The file gives its clusters back. -/
theorem Clusters.free (hg : Layout g) (hl : Clusters g d first l) (hne : first ≠ 0) :
    ∃ d', freeChain g first d = some (.ok (), d') ∧ SameRoot g d d' := by
  have hchain := hl.chainOf hne
  obtain ⟨d', hrun, hdata, hlinks⟩ :=
    freeRounds_chain hg hchain hl.range (length_le_maxRounds hg hchain hl.range)
  exact ⟨d', hrun, hlinks _ hl.apart, fun s hs => hdata s hs.data⟩

/-! ## Reading and writing -/

variable {size : Nat}

theorem copy_pos (g : FatContext) (hsize : 0 < size) :
    0 < min size (sectorSize - p % g.clusterBytes % sectorSize) := by
  have hmod := Nat.mod_lt (p % g.clusterBytes) (show 0 < sectorSize by decide)
  omega

/-- What the loop of `fat_read` copies. -/
theorem readRounds_eq (hg : Layout g) (hl : Clusters g s.disk (s.files h).firstCluster l)
    (hin : position + size ≤ l.length * g.clusterBytes)
    (hlt : position + size ≤ 2 ^ 32) {out : List UInt8} (hout : out.length ≤ size)
    (hrounds : size - out.length ≤ rounds) :
    readRounds g h position size rounds out s =
      some (.ok (out ++ (List.range (size - out.length)).map fun k =>
        fileByte g s.disk l (position + out.length + k)), s) := by
  induction rounds generalizing out with
  | zero =>
    have hdone : size - out.length = 0 := by omega
    rw [hdone]
    simp [readRounds]
  | succ rounds ih =>
    rw [readRounds]
    by_cases hmore : out.length < size
    case neg =>
      have hdone : size - out.length = 0 := by omega
      rw [if_neg hmore, hdone]
      simp
    have habsolute : u32 (position + out.length) = position + out.length :=
      Nat.mod_eq_of_lt (by omega)
    set p := position + out.length with hp
    have hindex : p / g.clusterBytes < l.length :=
      Nat.div_lt_of_lt_mul (by rw [Nat.mul_comm]; omega)
    have hc := List.getElem?_eq_getElem hindex
    set c := l[p / g.clusterBytes]
    have hrange := hl.range c (mem_of_getElem? hc)
    have hne : c ≠ 0 := by
      have := hrange.1
      omega
    set copy := min (size - out.length) (sectorSize - p % g.clusterBytes % sectorSize) with hcopy
    have hpos : 0 < copy := copy_pos g (by omega)
    have hchunk : (List.range copy).map (fun i => s.disk (byteSector g c p)
        (p % g.clusterBytes % sectorSize + i)) =
        (List.range copy).map fun i => fileByte g s.disk l (p + i) := by
      refine map_congr_left fun i hi => ?_
      rw [fileByte_add hc (by have := List.mem_range.1 hi; omega)]
    have hrun : readRounds g h position size (rounds + 1) out s =
        readRounds g h position size rounds
          (out ++ (List.range copy).map fun i => fileByte g s.disk l (p + i)) s := by
      rw [readRounds, if_pos hmore, ← hp, habsolute, bind_apply, clusterAt_read hg hl hc]
      dsimp only
      rw [if_neg hne, sector_eq hg hrange, bind_apply, ← hchunk]
      rfl
    rw [readRounds] at hrun
    rw [hrun, ih (by simp; omega) (by simp; omega)]
    have hsplit : size - out.length = copy + (size - (out.length + copy)) := by omega
    simp only [length_append, length_map, length_range, append_assoc,
      Option.some.injEq, Prod.mk.injEq, Except.ok.injEq, append_cancel_left_eq, and_true]
    rw [hsplit, range_add, map_append, map_map]
    congr 1
    refine map_congr_left fun k _ => ?_
    rw [Function.comp_apply]
    congr 1
    omega

/-- The loop of `fat_write` wrote `data` from a position on: the chain reaches as far. -/
structure Wrote (g : FatContext) (h : Fin maxOpenFiles) (s : FatState) (l : List Nat)
    (position : Nat) (data : List UInt8) (t : FatState) (l' : List Nat) : Prop where
  clusters : Clusters g t.disk (t.files h).firstCluster l'
  longer : l <+: l'
  bytes : fileByte g t.disk l' = store (fileByte g s.disk l) position data
  reaches : data ≠ [] → position + data.length ≤ l'.length * g.clusterBytes
  root : SameRoot g s.disk t.disk
  files : t.files = Function.update s.files h
    { s.files h with firstCluster := (t.files h).firstCluster }

theorem Wrote.nil (hl : Clusters g s.disk (s.files h).firstCluster l) (position : Nat) :
    Wrote g h s l position [] s l :=
  ⟨hl, prefix_rfl, store_nil.symm, fun hne => absurd rfl hne, SameRoot.refl _,
    (update_eq_self h s.files).symm⟩

def putPiece (g : FatContext) (s : FatState) (c p : Nat) (chunk : List UInt8) : FatState :=
  { s with
    disk := Function.update s.disk (byteSector g c p)
      (store (s.disk (byteSector g c p)) (p % g.clusterBytes % sectorSize) chunk) }

theorem wrote_putPiece (hg : Layout g) (hroot : InRange g g.rootCluster)
    (hext : Extended g h s l t l') (hc : l'[p / g.clusterBytes]? = some c)
    (hfit : p % g.clusterBytes % sectorSize + chunk.length ≤ sectorSize) :
    Wrote g h s l p chunk (putPiece g t c p chunk) l' := by
  have hl' := hext.grown.clusters
  have hmem := mem_of_getElem? hc
  have hsector := byteSector_inCluster (g := g) c p
  have htable : ∀ buffer, SameTable g t.disk (update t.disk (byteSector g c p) buffer) := by
    intro buffer s' hs'
    have := hsector.data
    rw [update_of_ne (by omega)]
  refine ⟨hl'.congr fun x _ => by rw [putPiece, (htable _).links hg], hext.grown.longer, ?_, fun hne => ?_,
    ⟨?_, fun s' hs' => ?_⟩, hext.files⟩
  · rw [putPiece, fileByte_store hl'.nodup hl'.range hc hfit, hext.grown.bytes]
  · obtain ⟨hlt, -⟩ := List.getElem?_eq_some_iff.1 hc
    have hpos := length_pos_of_ne_nil hne
    obtain ⟨hdiv, -⟩ := place_add (g := g) (p := p) (i := chunk.length - 1) (by omega)
    rw [← hdiv] at hlt
    have := (Nat.div_lt_iff_lt_mul (clusterBytes_pos g)).1 hlt
    omega
  · rw [putPiece, (htable _).links hg]
    exact hext.grown.root.link
  · refine (update_of_ne ?_ ..).trans (hext.grown.root.data s' hs')
    rintro rfl
    have heq := hs'.unique hsector hroot.1 (hl'.range c hmem).1
    exact hl'.apart (heq ▸ hmem)

theorem Wrote.append {u : FatState} (h₁ : Wrote g h s l p chunk t l')
    (h₂ : Wrote g h t l' (p + chunk.length) bytes u l'') :
    Wrote g h s l p (chunk ++ bytes) u l'' := by
  refine ⟨h₂.clusters, h₁.longer.trans h₂.longer, ?_, fun hne => ?_, h₁.root.trans h₂.root, ?_⟩
  · rw [h₂.bytes, h₁.bytes, store_append]
  · rw [length_append]
    by_cases hnil : bytes = []
    · subst hnil
      have hle := Nat.mul_le_mul_right g.clusterBytes h₂.longer.length_le
      have := h₁.reaches (by simpa using hne)
      simp only [length_nil]
      omega
    · have := h₂.reaches hnil
      omega
  · have hself : t.files h = { s.files h with firstCluster := (t.files h).firstCluster } := by
      have hfiles := congrFun h₁.files h
      rwa [update_self] at hfiles
    have hfiles := h₂.files
    rw [h₁.files, Function.update_idem, ← h₁.files] at hfiles
    rw [hself] at hfiles
    exact hfiles

/-- What the loop of `fat_write` leaves. -/
theorem writeRounds_eq (hg : Layout g) (hroot : links g s.disk g.rootCluster ≠ 0)
    (hl : Clusters g s.disk (s.files h).firstCluster l) (hlt : position + bytes.length ≤ 2 ^ 32)
    (hdone : done ≤ bytes.length) (hrounds : bytes.length - done ≤ rounds)
    (hrun : writeRounds g h position bytes rounds done s = some (.ok n, t)) :
    n = bytes.length ∧ ∃ l', Wrote g h s l (position + done) (bytes.drop done) t l' := by
  induction rounds generalizing done s l with
  | zero =>
    cases hrun
    have hall : n = bytes.length := by omega
    subst hall
    rw [drop_length]
    exact ⟨rfl, l, Wrote.nil hl _⟩
  | succ rounds ih =>
    rw [writeRounds] at hrun
    by_cases hmore : done < bytes.length
    case neg =>
      rw [if_neg hmore] at hrun
      cases hrun
      have hall : n = bytes.length := by omega
      subst hall
      rw [drop_length]
      exact ⟨rfl, l, Wrote.nil hl _⟩
    have habsolute : u32 (position + done) = position + done := Nat.mod_eq_of_lt (by omega)
    rw [if_pos hmore, habsolute, bind_apply] at hrun
    set p := position + done with hp
    cases hcluster : clusterAt g h (p / g.clusterBytes) true s with
    | none =>
      rw [hcluster] at hrun
      cases hrun
    | some result =>
    obtain ⟨r, u⟩ := result
    cases r with
    | error e =>
      rw [hcluster] at hrun
      cases hrun
    | ok c =>
    obtain ⟨l₁, hext, hc⟩ := clusterAt_extended hg hroot hl hcluster
    have hrange := hext.grown.clusters.range c (mem_of_getElem? hc)
    rw [hcluster] at hrun
    dsimp only at hrun
    rw [sector_eq hg hrange] at hrun
    set copy := min (bytes.length - done) (sectorSize - p % g.clusterBytes % sectorSize) with hcopy
    have hpos : 0 < copy := copy_pos g (by omega)
    have hlength : ((bytes.drop done).take copy).length = copy := by simp; omega
    have hstep : Wrote g h s l p ((bytes.drop done).take copy)
        (putPiece g u c p ((bytes.drop done).take copy)) l₁ :=
      wrote_putPiece hg (inRange_of_links hroot) hext hc (by omega)
    obtain ⟨hn, l', hrest⟩ := ih (by rw [hstep.root.link]; exact hroot) hstep.clusters (by omega)
      (by omega) hrun
    refine ⟨hn, l', ?_⟩
    have hsplit : bytes.drop done = (bytes.drop done).take copy ++ bytes.drop (done + copy) := by
      rw [← drop_drop, take_append_drop]
    rw [hsplit]
    refine hstep.append ?_
    rwa [hlength, hp, Nat.add_assoc]

end RadKernel.Fat
