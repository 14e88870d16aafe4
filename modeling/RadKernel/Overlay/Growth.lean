import RadKernel.Overlay.Bus
import RadKernel.Overlay.Load

/-!
# Trees that grow

The registration of an interrupt domain makes sure that its node is there, with its parents, and
sets properties that no bus looks at. Which paths there are in the end does not depend on the order
in which domains are registered.
-/

namespace RadKernel.Overlay

open List

/-- The properties that `rad_i2c_bind_tree` looks at. -/
def OnBus (name : CString) : Prop :=
  name = text "reg" ∨ name = text "compatible" ∨ name = text "bus-id"

def TreeState.paths (t : TreeState) : List CString := t.nodes.map (·.path)

/-- Nodes are added, and no property changes that a bus looks at. -/
structure Grows (t t' : TreeState) : Prop where
  paths : t.paths <+: t'.paths
  parent : ∀ i < t.nodes.length, (t'.node i).parent = (t.node i).parent
  value : ∀ name, OnBus name → ∀ i, t'.value? i name = t.value? i name

namespace Grows

variable {t t' t'' : TreeState}

theorem refl (t : TreeState) : Grows t t := ⟨prefix_rfl, fun _ _ => rfl, fun _ _ _ => rfl⟩

theorem length_le (h : Grows t t') : t.nodes.length ≤ t'.nodes.length := by
  simpa [TreeState.paths] using h.paths.length_le

theorem trans (h : Grows t t') (h' : Grows t' t'') : Grows t t'' where
  paths := h.paths.trans h'.paths
  parent i hi := (h'.parent i (Nat.lt_of_lt_of_le hi h.length_le)).trans (h.parent i hi)
  value name hname i := (h'.value name hname i).trans (h.value name hname i)

theorem path (h : Grows t t') (hi : i < t.nodes.length) : (t'.node i).path = (t.node i).path := by
  have hi' : i < t'.nodes.length := Nat.lt_of_lt_of_le hi h.length_le
  have hget := h.paths.getElem (show i < t.paths.length by simpa [TreeState.paths] using hi)
  simpa [TreeState.paths, node_eq hi, node_eq hi'] using hget.symm

end Grows

theorem findNode_paths (t : TreeState) (path : CString) :
    findNode t path = t.paths.findIdx? fun p => p = path := by
  rw [TreeState.paths, List.findIdx?_map]
  rfl

variable {t t' : TreeState} {i j : Nat} {config : IrqDomainConfig}

theorem Grows.findNode (h : Grows t t') {path : CString}
    (hi : findNode t path = some i) : findNode t' path = some i := by
  rw [findNode_paths] at hi ⊢
  obtain ⟨more, hmore⟩ := h.paths
  rw [← hmore, List.findIdx?_append, hi]
  rfl

theorem findNode_isSome {path : CString} : (findNode t path).isSome = true ↔ path ∈ t.paths := by
  rw [findNode_paths, List.findIdx?_isSome, any_eq_true]
  constructor
  · rintro ⟨p, hp, heq⟩
    exact of_decide_eq_true heq ▸ hp
  · intro hmem
    exact ⟨path, hmem, decide_eq_true rfl⟩

theorem findNode_eq_none {path : CString} : findNode t path = none ↔ path ∉ t.paths := by
  rw [← findNode_isSome, Option.not_isSome_iff_eq_none]

/-! ## Properties -/

/-- What a node holds can be read off the view. -/
theorem value?_view (ht : t.Sound) (i : Nat) (name : CString) :
    t.value? i name =
      t.view[i]?.bind fun n => (n.2.find? fun p => p.name = name).map (·.value) := by
  cases hget : t.view[i]? with
  | some n => exact value?_eq ht hget name
  | none =>
    have hi : t.nodes.length ≤ i := by simpa using List.getElem?_eq_none_iff.1 hget
    have hnode : t.node i = {} := getD_eq_default _ _ hi
    rw [TreeState.value?, findProperty, hnode]
    rfl

variable {name : CString} {node : TreeNode} {done : List CString}

theorem find_store {ps : List TreeProperty} {p : TreeProperty}
    (hname : p.name ≠ name) (hcopy : copyString treeMaxPropertyName p.name ≠ name) :
    (store ps p).find? (fun q => q.name = name) = ps.find? fun q => q.name = name := by
  induction ps with
  | nil => simp [store, hcopy]
  | cons q ps ih =>
    rw [store]
    split_ifs with hq
    · have hne : q.name ≠ name := fun heq => hname (hq.symm.trans heq)
      simp [hne]
    · rw [List.find?_cons, List.find?_cons, ih]

theorem node_setNode (hi : i < t.nodes.length) (node : TreeNode) (j : Nat) :
    (setNode t i node).node j = if j = i then node else t.node j := by
  simp only [setNode, TreeState.node, getD_eq_getElem?_getD, List.getElem?_set]
  by_cases hj : i = j
  · subst hj
    simp [hi]
  · simp [hj, Ne.symm hj]

theorem paths_setNode (hi : i < t.nodes.length)
    (hpath : node.path = (t.node i).path) : (setNode t i node).paths = t.paths := by
  rw [node_eq hi] at hpath
  exact map_set_of_eq hi hpath

theorem Grows.setNode (ht : t.Sound) (hi : i < t.nodes.length) (hpath : node.path = (t.node i).path)
    (hparent : node.parent = (t.node i).parent)
    (hprops : node.properties = (t.node i).properties) : Grows t (setNode t i node) where
  paths := paths_setNode hi hpath ▸ prefix_rfl
  parent j _ := by
    rw [node_setNode hi]
    split_ifs with hj
    · rw [hj, hparent]
    · rfl
  value name _ j := by
    rw [value?_view (ht.setNode hi hprops), value?_view ht, view_setNode hi hpath hprops]

theorem setBound_grows (ht : t.Sound) (hi : i < t.nodes.length)
    (bound : Bool) : Grows t (setBound t i bound) :=
  .setNode ht hi rfl rfl rfl

theorem allocateProperty_node (hi : i < t.nodes.length)
    {k? : Option Nat} (h : allocateProperty t i name = (k?, t')) :
    t'.paths = t.paths ∧ ∀ j, (t'.node j).parent = (t.node j).parent := by
  unfold allocateProperty at h
  split at h
  · cases h
    exact ⟨rfl, fun _ => rfl⟩
  · dsimp only at h
    split_ifs at h
    · cases h
      exact ⟨rfl, fun _ => rfl⟩
    · cases h
      exact ⟨rfl, fun _ => rfl⟩
    · cases h
      let node : TreeNode := { t.node i with
        properties := (t.node i).properties ++ [t.props.length] }
      have hpath : node.path = (t.node i).path := rfl
      refine ⟨paths_setNode hi hpath, fun j => ?_⟩
      have hnode := node_setNode hi node j
      refine (congrArg TreeNode.parent hnode).trans ?_
      split_ifs with hj
      · rw [hj]
      · rfl

theorem setProperty_grows (ht : t.Sound) (hi : i < t.nodes.length)
    (hname : ∀ other, OnBus other → name ≠ other)
    (hfits : name.length < treeMaxPropertyName) (value : PropertyValue) :
    Grows t (setProperty t i name value) ∧ (setProperty t i name value).paths = t.paths := by
  have hsound := ht.setProperty hi name value
  unfold setProperty at hsound ⊢
  cases halloc : allocateProperty t i name with
  | mk k? t' =>
    rw [halloc] at hsound
    cases k? with
    | none =>
      obtain ⟨rfl, -⟩ := allocateProperty_of_none ht hi halloc
      exact ⟨.refl t', rfl⟩
    | some k =>
      obtain ⟨-, hview, -, -⟩ := allocateProperty_of_some ht hi halloc value
      obtain ⟨hpaths, hparent⟩ := allocateProperty_node hi halloc
      refine ⟨⟨hpaths ▸ prefix_rfl, fun j _ => hparent j, fun other hother j => ?_⟩, hpaths⟩
      have hcopy : copyString treeMaxPropertyName name = name :=
        take_of_length_le (Nat.le_sub_one_of_lt hfits)
      have hne : name ≠ other := hname other hother
      have hstore : ∀ ps : List TreeProperty,
          (storeAll ps [⟨name, value⟩]).find? (fun p => p.name = other) =
            ps.find? fun p => p.name = other :=
        fun ps => find_store hne (hcopy.symm ▸ hne)
      rw [value?_view hsound, value?_view ht, hview, storeAt, List.getElem?_modify]
      cases t.view[j]? with
      | none => rfl
      | some n =>
        simp only [Option.map_eq_map, Option.map_some, Option.bind_some]
        split_ifs
        · simp only [hstore]
        · rfl

/-! ## Parents -/

abbrev parentOf (path : CString) : CString := (pathParentName path).1

/-- The last number below `n` of a kind. -/
theorem find_reverse_range {f : Nat → Bool} {n : Nat} :
    (List.range n).reverse.find? f = some j ↔
      j < n ∧ f j = true ∧ ∀ k, j < k → k < n → f k = false := by
  induction n with
  | zero => simp
  | succ n ih =>
    rw [range_succ, reverse_append, reverse_singleton, singleton_append, List.find?_cons]
    cases hf : f n with
    | true =>
      simp only [Option.some.injEq]
      constructor
      · rintro rfl
        exact ⟨Nat.lt_succ_self _, hf, fun k hk hk' => by omega⟩
      · rintro ⟨hj, -, hlast⟩
        by_contra hne
        have := hlast n (by omega) (Nat.lt_succ_self n)
        rw [hf] at this
        cases this
    | false =>
      rw [ih]
      constructor
      · rintro ⟨hj, hfj, hlast⟩
        refine ⟨by omega, hfj, fun k hk hk' => ?_⟩
        by_cases hkn : k = n
        · exact hkn ▸ hf
        · exact hlast k hk (by omega)
      · rintro ⟨hj, hfj, hlast⟩
        have hne : j ≠ n := fun heq => by
          rw [heq, hf] at hfj
          cases hfj
        exact ⟨by omega, hfj, fun k hk hk' => hlast k hk (by omega)⟩

theorem lastSlash_eq_some {path : CString} :
    lastSlash path = some j ↔ path[j]? = some 47 ∧ ∀ k, j < k → path[k]? ≠ some 47 := by
  rw [lastSlash, find_reverse_range]
  simp only [decide_eq_true_eq, decide_eq_false_iff_not]
  constructor
  · rintro ⟨hj, hget, hlast⟩
    refine ⟨hget, fun k hk => ?_⟩
    by_cases hlen : k < path.length
    · exact hlast k hk hlen
    · rw [List.getElem?_eq_none (Nat.le_of_not_lt hlen)]
      exact Option.some_ne_none _ |>.symm
  · rintro ⟨hget, hlast⟩
    obtain ⟨hlen, -⟩ := List.getElem?_eq_some_iff.1 hget
    exact ⟨hlen, hget, fun k hk _ => hlast k hk⟩

theorem parentOf_eq {path : CString} (h : parentOf path ≠ []) :
    ∃ j, lastSlash path = some j ∧ path ≠ text "/" ∧
      parentOf path = if j = 0 then text "/" else copyString treeMaxPath (path.take j) := by
  unfold parentOf pathParentName at h ⊢
  split_ifs at h with hroot
  · exact absurd rfl h
  · obtain ⟨-, hne⟩ := not_or.1 hroot
    rw [if_neg hroot]
    cases hslash : lastSlash path with
    | none =>
      rw [hslash] at h
      exact absurd rfl h
    | some j => exact ⟨j, rfl, hne, rfl⟩

theorem length_copyString_le (size : Nat) (s : CString) :
    (copyString size s).length ≤ s.length := by
  rw [copyString, length_take]
  exact Nat.min_le_right ..

theorem length_copyString_lt {size : Nat} (hsize : 0 < size) (s : CString) :
    (copyString size s).length < size := by
  rw [copyString, length_take]
  omega

theorem length_parentOf_lt {path : CString} (h : parentOf path ≠ []) :
    (parentOf path).length < path.length := by
  obtain ⟨j, hslash, hroot, heq⟩ := parentOf_eq h
  obtain ⟨hget, hlast⟩ := lastSlash_eq_some.1 hslash
  obtain ⟨hj, hbyte⟩ := List.getElem?_eq_some_iff.1 hget
  rw [heq]
  split_ifs with hzero
  · rcases path with _ | ⟨a, _ | ⟨b, rest⟩⟩
    · simp at hj
    · subst hzero
      simp only [getElem_cons_zero] at hbyte
      rw [hbyte] at hroot
      exact absurd rfl hroot
    · simp [text]
  · refine Nat.lt_of_le_of_lt (length_copyString_le ..) ?_
    rw [length_take]
    omega

/-- Every path with a slash has a parent, the root apart. -/
theorem parentOf_ne_nil {path : CString} (hroot : path ≠ text "/")
    (hslash : path[j]? = some 47) : parentOf path ≠ [] := by
  obtain ⟨hj, -⟩ := List.getElem?_eq_some_iff.1 hslash
  have hne : ¬(path = [] ∨ path = text "/") := by
    rintro (rfl | rfl)
    · simp at hj
    · exact hroot rfl
  rw [parentOf, pathParentName, if_neg hne]
  cases hlast : lastSlash path with
  | none =>
    have hnone := List.find?_eq_none.1 hlast j (List.mem_reverse.2 (List.mem_range.2 hj))
    exact absurd (decide_eq_true hslash) hnone
  | some i =>
    dsimp only
    split_ifs with hzero
    · decide
    · intro hnil
      have hlength := congrArg List.length hnil
      simp only [copyString, length_take, treeMaxPath, length_nil] at hlength
      omega

theorem parentOf_copyString {path : CString} (h : parentOf path ≠ []) :
    parentOf (copyString treeMaxPath path) = parentOf path ∨
      copyString treeMaxPath path = parentOf path := by
  obtain ⟨j, hslash, hroot, heq⟩ := parentOf_eq h
  obtain ⟨hget, hlast⟩ := lastSlash_eq_some.1 hslash
  by_cases hj : j < treeMaxPath - 1
  · left
    set short := copyString treeMaxPath path with hshort
    have hslash' : lastSlash short = some j := by
      refine lastSlash_eq_some.2 ⟨?_, fun k hk => ?_⟩
      · rw [hshort, copyString, List.getElem?_take, if_pos hj, hget]
      · rw [hshort, copyString, List.getElem?_take]
        split_ifs
        · exact hlast k hk
        · exact (Option.some_ne_none _).symm
    have hne : ¬(short = [] ∨ short = text "/") := by
      rintro (hempty | hslashOnly)
      · rw [hempty] at hslash'
        cases hslash'
      · have hpath : path = text "/" := by
          have hlen := congrArg List.length hslashOnly
          rw [hshort, copyString, length_take] at hlen
          have hone : path.length ≤ treeMaxPath - 1 := by
            simp only [text, treeMaxPath] at hlen ⊢
            simp at hlen
            omega
          rw [← hslashOnly, hshort, copyString, take_of_length_le hone]
        exact hroot hpath
    have htake : short.take j = path.take j := by
      rw [hshort, copyString, take_take, Nat.min_eq_left (Nat.le_of_lt hj)]
    rw [heq, parentOf, pathParentName, if_neg hne, hslash']
    dsimp only
    rw [htake]
  · right
    have hzero : j ≠ 0 := by
      simp only [treeMaxPath] at hj
      omega
    rw [heq, if_neg hzero, copyString, copyString, take_take, Nat.min_eq_left (by omega)]

/-! ## Nodes for a path -/

/-- With nodes for the paths `N`, a node for `p` takes one at `x` too, when there is none: the path
itself, cut off where it is too long, or one of its parents. -/
inductive Creates (N : CString → Prop) : CString → CString → Prop
  | self {p : CString} : ¬N p → Creates N p (copyString treeMaxPath p)
  | parent {p x : CString} : ¬N p → parentOf p ≠ [] → parentOf p ≠ p → Creates N (parentOf p) x →
      Creates N p x

namespace Creates

variable {N N' : CString → Prop} {p q x : CString}

theorem new (h : Creates N p x) : ¬N p := by
  cases h with
  | self hp => exact hp
  | parent hp _ _ _ => exact hp

theorem length_le (h : Creates N p x) : x.length ≤ p.length := by
  induction h with
  | self _ => exact length_copyString_le ..
  | parent _ hparent _ _ ih => exact Nat.le_trans ih (Nat.le_of_lt (length_parentOf_lt hparent))

theorem fits (h : Creates N p x) : x.length < treeMaxPath := by
  induction h with
  | self _ => exact length_copyString_lt (by decide) _
  | parent _ _ _ _ ih => exact ih

/-- With more nodes fewer are created. -/
theorem anti (hN : ∀ p, N p → N' p) (h : Creates N' p x) : Creates N p x := by
  induction h with
  | self hp => exact .self fun hN' => hp (hN _ hN')
  | parent hp hparent hne _ ih => exact .parent (fun hN' => hp (hN _ hN')) hparent hne ih

theorem trans (h : Creates N p q) (hq : ¬N q) (hparent : parentOf q ≠ []) (hne : parentOf q ≠ q)
    (hx : Creates N (parentOf q) x) : Creates N p x := by
  induction h with
  | @self p hp =>
    have hslash : parentOf p ≠ [] := by
      obtain ⟨j, hlast, hroot, -⟩ := parentOf_eq hparent
      obtain ⟨hget, -⟩ := lastSlash_eq_some.1 hlast
      rw [copyString, List.getElem?_take] at hget
      split_ifs at hget
      refine parentOf_ne_nil (fun hp => hroot ?_) hget
      rw [hp]
      rfl
    have hshort : parentOf p ≠ p → Creates N p x := by
      intro hdiff
      rcases parentOf_copyString hslash with hsame | hcut
      · exact .parent hp hslash hdiff (hsame ▸ hx)
      · exact .parent hp hslash hdiff (hcut ▸ .parent hq hparent hne hx)
    refine hshort fun heq => ?_
    have := length_parentOf_lt hslash
    rw [heq] at this
    exact Nat.lt_irrefl _ this
  | parent hp hparent' hne' _ ih => exact .parent hp hparent' hne' (ih hq hparent hne hx)

/-- What was created with some of the paths need not be created for another one. -/
theorem or_created {done : CString → Prop} (h : Creates N p x) :
    (N x ∨ ∃ r, done r ∧ Creates N r x) ∨
      Creates (fun y => N y ∨ ∃ r, done r ∧ Creates N r y) p x := by
  induction h with
  | @self p hp =>
    by_cases hcreated : ∃ r, done r ∧ Creates N r p
    · obtain ⟨r, hr, hcreates⟩ := hcreated
      have hsame : copyString treeMaxPath p = p :=
        take_of_length_le (Nat.le_sub_one_of_lt hcreates.fits)
      exact .inl (.inr ⟨r, hr, hsame.symm ▸ hcreates⟩)
    · exact .inr (.self (not_or.2 ⟨hp, hcreated⟩))
  | @parent p x hp hparent hne hx ih =>
    by_cases hcreated : ∃ r, done r ∧ Creates N r p
    · obtain ⟨r, hr, hcreates⟩ := hcreated
      exact .inl (.inr ⟨r, hr, hcreates.trans hp hparent hne hx⟩)
    · exact ih.imp id (.parent (not_or.2 ⟨hp, hcreated⟩) hparent hne)

end Creates

/-! ## Making sure that a node is there -/

theorem allocateNode_grows (ht : t.Sound) {path parent : CString}
    (hnew : path ∉ t.paths) (h : allocateNode t path name parent = (some i, t')) :
    Grows t t' ∧ t'.paths = t.paths ++ [copyString treeMaxPath path] := by
  have hsound := (allocateNode_of_some ht h).1
  unfold allocateNode at h
  rw [findNode_eq_none.2 hnew] at h
  split_ifs at h
  · cases (Prod.mk.inj h).1
  · cases h
    have hpaths : TreeState.paths { t with nodes := t.nodes ++ [
        { path := copyString treeMaxPath path
          name := copyString treeMaxPropertyName name
          parent := copyString treeMaxPath parent }] } =
        t.paths ++ [copyString treeMaxPath path] :=
      map_append ..
    refine ⟨⟨hpaths ▸ prefix_append .., fun j hj => ?_, fun other _ j => ?_⟩, hpaths⟩
    · simp only [TreeState.node, getD_eq_getElem?_getD, List.getElem?_append_left hj]
    · rw [value?_view hsound, value?_view ht, view_appendNode]
      by_cases hj : j < t.view.length
      · rw [List.getElem?_append_left hj]
      · rw [List.getElem?_eq_none (Nat.le_of_not_lt hj), List.getElem?_append_right (Nat.le_of_not_lt hj)]
        cases j - t.view.length with
        | zero => rfl
        | succ m => rfl

theorem ensureNodes_grows {rounds : Nat} (ht : t.Sound) {path : CString}
    (h : ensureNodes rounds t path = (some i, t')) :
    t'.Sound ∧ Grows t t' ∧ i < t'.nodes.length ∧
      ∀ x, x ∈ t'.paths ↔ x ∈ t.paths ∨ Creates (· ∈ t.paths) path x := by
  induction rounds generalizing path i t' with
  | zero => cases (Prod.mk.inj h).1
  | succ rounds ih =>
    rw [ensureNodes] at h
    split_ifs at h
    · cases (Prod.mk.inj h).1
    · cases hfind : findNode t path with
      | some j =>
        rw [hfind] at h
        cases h
        have hmem : path ∈ t.paths := findNode_isSome.1 (by rw [hfind]; rfl)
        have hi : i < t.paths.length := by
          rw [findNode_paths] at hfind
          exact (List.findIdx?_eq_some_iff_getElem.1 hfind).1
        refine ⟨ht, .refl t, by simpa [TreeState.paths] using hi, fun x => ?_⟩
        exact ⟨.inl, fun hx => hx.resolve_right fun hc => hc.new hmem⟩
      | none =>
        have hnew : path ∉ t.paths := findNode_eq_none.1 hfind
        rw [hfind] at h
        dsimp only at h
        split_ifs at h with hparent
        · obtain ⟨hslash, hne, hmissing⟩ := hparent
          cases hrec : ensureNodes rounds t (parentOf path) with
          | mk i? t₁ =>
            rw [hrec] at h
            cases i? with
            | none => cases (Prod.mk.inj h).1
            | some i₁ =>
              obtain ⟨hsound₁, hgrows₁, -, hpaths₁⟩ := ih hrec
              have hnew₁ : path ∉ t₁.paths := by
                rw [hpaths₁]
                rintro (hmem | hcreated)
                · exact hnew hmem
                · exact Nat.not_lt.2 hcreated.length_le (length_parentOf_lt hslash)
              obtain ⟨hsound, hi, -⟩ := allocateNode_of_some hsound₁ h
              obtain ⟨hgrows, hpaths⟩ := allocateNode_grows hsound₁ hnew₁ h
              refine ⟨hsound, hgrows₁.trans hgrows, hi, fun x => ?_⟩
              rw [hpaths, mem_append, hpaths₁, mem_singleton]
              constructor
              · rintro ((hmem | hcreated) | rfl)
                · exact .inl hmem
                · exact .inr (.parent hnew hslash hne hcreated)
                · exact .inr (.self hnew)
              · rintro (hmem | hcreated)
                · exact .inl (.inl hmem)
                · cases hcreated with
                  | self _ => exact .inr rfl
                  | parent _ _ _ hx => exact .inl (.inr hx)
        · obtain ⟨hsound, hi, -⟩ := allocateNode_of_some ht h
          obtain ⟨hgrows, hpaths⟩ := allocateNode_grows ht hnew h
          refine ⟨hsound, hgrows, hi, fun x => ?_⟩
          rw [hpaths, mem_append, mem_singleton]
          constructor
          · rintro (hmem | rfl)
            · exact .inl hmem
            · exact .inr (.self hnew)
          · rintro (hmem | hcreated)
            · exact .inl hmem
            · cases hcreated with
              | self _ => exact .inr rfl
              | parent _ hslash hne hx =>
                have hpresent : findNode t (parentOf path) ≠ none := fun hm => hparent ⟨hslash, hne, hm⟩
                exact absurd hx.new (not_not.2 (Decidable.not_not.1 fun hn =>
                  hpresent (findNode_eq_none.2 hn)))

/-! ## Registering a domain -/

/-- The domains in use are nodes of the tree. -/
def Placed (s : Buses) : Prop :=
  ∀ j < maxIrqDomains, (s.domains j).used = true → (s.domains j).treePath ∈ s.tree.paths

/-- The nodes that the registration of domains with these paths leads to. -/
def GrownBy (t : TreeState) (done : List CString) (x : CString) : Prop :=
  x ∈ t.paths ∨ ∃ p ∈ done, Creates (· ∈ t.paths) p x

/-- The tree has the nodes of a first tree and those made for domains with these paths. -/
structure Grown (t : TreeState) (done : List CString) (t' : TreeState) : Prop where
  sound : t'.Sound
  grows : Grows t t'
  paths : ∀ x, x ∈ t'.paths ↔ GrownBy t done x
  fits : ∀ x ∈ t'.paths, x.length < treeMaxPath

theorem Grown.refl (ht : t.Sound) (hfits : ∀ x ∈ t.paths, x.length < treeMaxPath) :
    Grown t [] t where
  sound := ht
  grows := .refl t
  paths _ := ⟨.inl, fun h => h.resolve_right fun ⟨_, hp, _⟩ => by cases hp⟩
  fits := hfits

namespace Grown

variable {t t' t'' : TreeState} {done : List CString}

/-- Steps that add no node. -/
theorem samePaths (h : Grown t done t') (hsound : t''.Sound) (hgrows : Grows t' t'')
    (hpaths : t''.paths = t'.paths) : Grown t done t'' :=
  ⟨hsound, h.grows.trans hgrows, fun x => hpaths ▸ h.paths x, hpaths ▸ h.fits⟩

variable {i : Nat}

theorem ensure (h : Grown t done t') {path : CString}
    (hensure : ensureNodePath t' path = (some i, t'')) :
    Grown t (path :: done) t'' ∧ i < t''.nodes.length ∧ copyString treeMaxPath path ∈ t''.paths := by
  obtain ⟨hsound, hgrows, hi, hpaths⟩ := ensureNodes_grows h.sound hensure
  have hN : (fun y => y ∈ t'.paths) = GrownBy t done := funext fun y => propext (h.paths y)
  rw [hN] at hpaths
  have hgrown : ∀ x, GrownBy t done x ∨ Creates (GrownBy t done) path x ↔
      GrownBy t (path :: done) x := by
    intro x
    constructor
    · rintro ((hmem | ⟨p, hp, hcreates⟩) | hcreates)
      · exact .inl hmem
      · exact .inr ⟨p, mem_cons_of_mem _ hp, hcreates⟩
      · exact .inr ⟨path, mem_cons_self, hcreates.anti fun _ => .inl⟩
    · rintro (hmem | ⟨p, hp, hcreates⟩)
      · exact .inl (.inl hmem)
      · rcases List.mem_cons.1 hp with rfl | hp
        · exact @Creates.or_created _ _ _ (· ∈ done) hcreates
        · exact .inl (.inr ⟨p, hp, hcreates⟩)
  have hall : ∀ x, x ∈ t''.paths ↔ GrownBy t (path :: done) x := fun x => by
    rw [hpaths, h.paths, hgrown]
  have hfits : ∀ x ∈ t''.paths, x.length < treeMaxPath := by
    intro x hx
    rcases (hpaths x).1 hx with hold | hcreates
    · exact h.fits x hold
    · exact hcreates.fits
  refine ⟨⟨hsound, h.grows.trans hgrows, hall, hfits⟩, hi, (hpaths _).2 ?_⟩
  by_cases hold : GrownBy t done path
  · have hsame : copyString treeMaxPath path = path :=
      take_of_length_le (Nat.le_sub_one_of_lt (h.fits path ((h.paths path).2 hold)))
    exact .inl (hsame.symm ▸ (h.paths path).2 hold)
  · exact .inr (.self hold)

theorem setProperty (h : Grown t done t') (hi : i < t'.nodes.length) {name : CString}
    (hname : ∀ other, OnBus other → name ≠ other) (hfits : name.length < treeMaxPropertyName)
    (value : PropertyValue) :
    Grown t done (setProperty t' i name value) ∧ i < (setProperty t' i name value).nodes.length ∧
      (setProperty t' i name value).paths = t'.paths := by
  obtain ⟨hgrows, hpaths⟩ := setProperty_grows h.sound hi hname hfits value
  exact ⟨h.samePaths (h.sound.setProperty hi name value) hgrows hpaths,
    Nat.lt_of_lt_of_le hi hgrows.length_le, hpaths⟩

end Grown

/-- A node that is there already takes no other nodes. -/
theorem Grown.present (h : Grown t done t') {path : CString}
    (hpath : path ∈ t'.paths) : Grown t (path :: done) t' where
  sound := h.sound
  grows := h.grows
  fits := h.fits
  paths x := by
    rw [h.paths]
    constructor
    · rintro (hmem | ⟨p, hp, hcreates⟩)
      · exact .inl hmem
      · exact .inr ⟨p, mem_cons_of_mem _ hp, hcreates⟩
    · rintro (hmem | ⟨p, hp, hcreates⟩)
      · exact .inl hmem
      · rcases List.mem_cons.1 hp with rfl | hp
        · have hor := @Creates.or_created _ _ _ (· ∈ done) hcreates
          exact hor.resolve_right fun hc => hc.new ((h.paths _).1 hpath)
        · exact .inr ⟨p, hp, hcreates⟩

/-- The property `#interrupt-cells` and its like. -/
def domainProperties : List CString :=
  [text "interrupt-controller", text "#interrupt-cells", text "interrupt-base",
    text "interrupt-count", text "name"]

theorem domainProperties_offBus (h : name ∈ domainProperties) :
    (∀ other, OnBus other → name ≠ other) ∧ name.length < treeMaxPropertyName := by
  have hall : ∀ name ∈ domainProperties,
      name ≠ text "reg" ∧ name ≠ text "compatible" ∧ name ≠ text "bus-id" ∧
        name.length < treeMaxPropertyName := by decide
  obtain ⟨hreg, hcompatible, hbus, hlength⟩ := hall name h
  refine ⟨?_, hlength⟩
  rintro other (rfl | rfl | rfl)
  · exact hreg
  · exact hcompatible
  · exact hbus

theorem setPropertyString_of_ne (t : TreeState) (h : name ≠ text "module")
    (value : CString) : setPropertyString t i name value =
      setProperty t i name
        { type := treePropString, stringValue := copyString treeMaxValue value } := by
  rw [setPropertyString, if_neg fun hand => h hand.1]

theorem placed_allocate {domains domains' : Nat → IrqDomain} {paths : List CString}
    {j? : Option Nat}
    (h : ∀ j < maxIrqDomains, (domains j).used = true → (domains j).treePath ∈ paths)
    (hpath : copyString treeMaxPath config.treePath ∈ paths)
    (hallocate : allocateIrqDomain domains config = (j?, domains')) :
    ∀ j < maxIrqDomains, (domains' j).used = true → (domains' j).treePath ∈ paths := by
  unfold allocateIrqDomain at hallocate
  split at hallocate
  · cases hallocate
    exact h
  · split at hallocate
    · cases hallocate
      exact h
    · split at hallocate
      · cases hallocate
        exact h
      · next free _ =>
        cases hallocate
        intro j hj
        rw [Function.update_apply]
        by_cases hfree : j = free
        · rw [if_pos hfree]
          exact fun _ => hpath
        · rw [if_neg hfree]
          exact h j hj

/-- The nodes for one more domain, and properties that say nothing about buses. -/
theorem radIrqDomainRegister_grown {s s' : Buses} (h : Grown t done s.tree) (hplaced : Placed s)
    (hregister : radIrqDomainRegister s config = (.ok, s')) :
    Grown t (config.treePath :: done) s'.tree ∧ Placed s' := by
  unfold radIrqDomainRegister at hregister
  split_ifs at hregister
  · cases (Prod.mk.inj hregister).1
  · cases (Prod.mk.inj hregister).1
  · cases (Prod.mk.inj hregister).1
  · cases (Prod.mk.inj hregister).1
  · cases hensure : ensureNodePath s.tree config.treePath with
    | mk i? t₁ =>
      rw [hensure] at hregister
      cases i? with
      | none => cases (Prod.mk.inj hregister).1
      | some i =>
        have hstep :
    ∀ (t' : TreeState), Grown t (config.treePath :: done) t' → i < t'.nodes.length →
            ∀ name ∈ domainProperties, ∀ value,
              Grown t (config.treePath :: done) (setProperty t' i name value) ∧
                i < (setProperty t' i name value).nodes.length ∧
                (setProperty t' i name value).paths = t'.paths := by
          intro t' ht' hi' name hname value
          obtain ⟨hoff, hfits⟩ := domainProperties_offBus hname
          exact ht'.setProperty hi' hoff hfits value
        obtain ⟨hgrown, hi, hmem⟩ := h.ensure hensure
        have hmore : ∀ p ∈ s.tree.paths, p ∈ t₁.paths := fun p hp =>
          (ensureNodes_grows h.sound hensure).2.1.paths.subset hp
        obtain ⟨h₁, hi₁, hp₁⟩ := hstep _ hgrown hi (text "interrupt-controller") (by decide)
          { type := treePropBool, boolValue := true }
        obtain ⟨h₂, hi₂, hp₂⟩ := hstep _ h₁ hi₁ (text "#interrupt-cells") (by decide)
          { type := treePropU32, u32Value := config.interruptCells }
        obtain ⟨h₃, hi₃, hp₃⟩ := hstep _ h₂ hi₂ (text "interrupt-base") (by decide)
          { type := treePropU32, u32Value := config.interruptBase }
        obtain ⟨h₄, hi₄, hp₄⟩ := hstep _ h₃ hi₃ (text "interrupt-count") (by decide)
          { type := treePropU32, u32Value := config.lineCount }
        have h₅ := hstep _ h₄ hi₄ (text "name") (by decide)
        have hpaths := fun value =>
          (h₅ value).2.2.trans (hp₄.trans (hp₃.trans (hp₂.trans hp₁)))
        simp only [setPropertyBool, setPropertyU32] at hregister
        rw [setPropertyString_of_ne _ (by decide)] at hregister
        generalize hvalue : (PropertyValue.mk treePropString 0 false _ []) = value at hregister
        cases halloc : allocateIrqDomain s.domains config with
        | mk j? domains =>
          have hplaced' := placed_allocate (fun j hj hu => hmore _ (hplaced j hj hu)) hmem halloc
          rw [halloc] at hregister
          cases j? with
          | none => cases (Prod.mk.inj hregister).1
          | some j =>
            obtain rfl := (Prod.mk.inj hregister).2
            have hgrown' := (h₅ value).1
            have hsame := hpaths value
            refine ⟨?_, fun j hj hu => ?_⟩
            · dsimp only
              exact hgrown'
            · dsimp only at hu ⊢
              rw [hsame]
              exact hplaced' j hj hu

end RadKernel.Overlay
