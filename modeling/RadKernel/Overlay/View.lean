import RadKernel.Overlay.Model
import Mathlib.Data.List.Find
import Mathlib.Data.List.GetD
import Mathlib.Data.List.Nodup
import Mathlib.Data.List.Perm.Basic
import Mathlib.Algebra.GroupWithZero.Nat

/-!
# What a tree says

The view of a tree is the list of its nodes, each with its path and its properties. A property that
is stored in the tables is stored in the view.
-/

namespace RadKernel.Overlay

open Function List

abbrev NodeView := CString × List TreeProperty

/-- The paths with their properties. -/
def TreeState.view (t : TreeState) : List NodeView :=
  t.nodes.map fun node => (node.path, node.properties.map t.prop)

/-- The indices that the nodes use are those of the properties in use, each once. -/
structure TreeState.Sound (t : TreeState) : Prop where
  indices : (t.nodes.map (·.properties)).flatten.Perm (List.range t.props.length)
  nodes_le : t.nodes.length ≤ maxTreeNodes
  props_le : t.props.length ≤ maxTreeProps
  properties_le : ∀ node ∈ t.nodes, node.properties.length ≤ maxNodeProperties

/-! ## Views -/

/-- A property is added, or its value replaced. -/
def store : List TreeProperty → TreeProperty → List TreeProperty
  | [], p => [{ p with name := copyString treeMaxPropertyName p.name }]
  | q :: ps, p => if q.name = p.name then { q with value := p.value } :: ps else q :: store ps p

def storeAll (ps : List TreeProperty) (qs : List TreeProperty) : List TreeProperty := qs.foldl store ps

def storeAt (v : List NodeView) (i : Nat) (qs : List TreeProperty) : List NodeView :=
  v.modify i fun n => (n.1, storeAll n.2 qs)

/-- A node is added when its path is new, and gets the properties. -/
def merge (v : List NodeView) (n : NodeView) : List NodeView :=
  match v.findIdx? fun m => m.1 = n.1 with
  | some i => storeAt v i n.2
  | none => v ++ [(copyString treeMaxPath n.1, storeAll [] n.2)]

def mergeAll (v : List NodeView) (ns : List NodeView) : List NodeView := ns.foldl merge v

def total (v : List NodeView) : Nat := (v.map fun n => n.2.length).sum

/-- The tables have room for the view. -/
structure Fits (v : List NodeView) : Prop where
  nodes_le : v.length ≤ maxTreeNodes
  total_le : total v ≤ maxTreeProps
  properties_le : ∀ n ∈ v, n.2.length ≤ maxNodeProperties

instance (v : List NodeView) : Decidable (Fits v) :=
  decidable_of_iff
    (v.length ≤ maxTreeNodes ∧ total v ≤ maxTreeProps ∧ ∀ n ∈ v, n.2.length ≤ maxNodeProperties)
    ⟨fun ⟨h, h', h''⟩ => ⟨h, h', h''⟩, fun ⟨h, h', h''⟩ => ⟨h, h', h''⟩⟩

theorem length_le_store (ps : List TreeProperty) (p : TreeProperty) :
    ps.length ≤ (store ps p).length := by
  induction ps with
  | nil => simp [store]
  | cons q ps ih =>
    rw [store]
    split
    · simp
    · simpa using ih

theorem length_le_storeAll (ps qs : List TreeProperty) : ps.length ≤ (storeAll ps qs).length := by
  induction qs generalizing ps with
  | nil => exact Nat.le_refl _
  | cons q qs ih => exact Nat.le_trans (length_le_store ps q) (ih (store ps q))

variable {p : TreeProperty} {t : TreeState} {i k : Nat}

theorem store_of_new {ps : List TreeProperty} (h : ∀ q ∈ ps, q.name ≠ p.name) :
    store ps p = ps ++ [{ p with name := copyString treeMaxPropertyName p.name }] := by
  induction ps with
  | nil => rfl
  | cons q ps ih =>
    rw [store, if_neg (h q mem_cons_self), ih fun r hr => h r (mem_cons_of_mem _ hr)]
    rfl

section
variable (v : List NodeView) (i : Nat)
include v

theorem storeAt_append (ps qs : List TreeProperty) :
    storeAt (storeAt v i ps) i qs = storeAt v i (ps ++ qs) := by
  simp [storeAt, modify_modify_eq, Function.comp_def, storeAll, foldl_append]

@[simp] theorem length_storeAt (qs : List TreeProperty) : (storeAt v i qs).length = v.length := by
  simp [storeAt]

@[simp] theorem storeAt_nil : storeAt v i [] = v :=
  modify_id i v

end

/-! ## Views that fit -/

/-- Every node of the first view is, with at most as many properties, in the second. -/
def Below (v w : List NodeView) : Prop :=
  ∃ u rest, w = u ++ rest ∧ List.Forall₂ (fun m n : NodeView => m.2.length ≤ n.2.length) v u

namespace Below

variable {v w : List NodeView}

theorem total_le (h : List.Forall₂ (fun m n : NodeView => m.2.length ≤ n.2.length) v w) :
    total v ≤ total w := by
  induction h with
  | nil => exact Nat.le_refl _
  | cons hmn _ ih =>
    simp only [total, map_cons, sum_cons] at ih ⊢
    omega

theorem fits (h : Below v w) (hw : Fits w) : Fits v := by
  obtain ⟨u, rest, rfl, hu⟩ := h
  have hlength := hu.length_eq
  refine ⟨?_, ?_, ?_⟩
  · have := hw.nodes_le
    rw [length_append] at this
    omega
  · have htotal := total_le hu
    have := hw.total_le
    simp only [total, map_append, sum_append] at this htotal ⊢
    omega
  · intro m hm
    obtain ⟨i, hi, rfl⟩ := List.mem_iff_getElem.1 hm
    have hle := List.Forall₂.get hu (by omega) (by omega)
    have hmem : u[i] ∈ u ++ rest := mem_append_left _ (getElem_mem _)
    exact Nat.le_trans hle (hw.properties_le _ hmem)

theorem storeAt (v : List NodeView) (i : Nat) (qs : List TreeProperty) :
    Below v (storeAt v i qs) := by
  refine ⟨_, [], (append_nil _).symm, List.forall₂_iff_get.2 ⟨by simp, ?_⟩⟩
  intro j h₁ h₂
  simp only [get_eq_getElem, Overlay.storeAt, getElem_modify]
  split
  · exact length_le_storeAll _ _
  · exact Nat.le_refl _

theorem append (v : List NodeView) (n : NodeView) : Below v (v ++ [n]) :=
  ⟨v, [n], rfl, List.forall₂_same.2 fun _ _ => Nat.le_refl _⟩

theorem merge (v : List NodeView) (n : NodeView) : Below v (merge v n) := by
  unfold Overlay.merge
  split
  · exact storeAt v _ n.2
  · exact append v _

theorem fits_mergeAll (v ns : List NodeView) (h : Fits (mergeAll v ns)) : Fits v := by
  induction ns generalizing v with
  | nil => exact h
  | cons n ns ih => exact (merge v n).fits (ih _ h)

end Below

/-! ## The tables behind a view -/

@[simp] theorem length_view (t : TreeState) : t.view.length = t.nodes.length := length_map ..

theorem findNode_eq (t : TreeState) (path : CString) :
    findNode t path = t.view.findIdx? fun n => n.1 = path := by
  rw [TreeState.view, List.findIdx?_map]
  rfl

theorem node_eq (hi : i < t.nodes.length) : t.node i = t.nodes[i] := by
  rw [TreeState.node, getD_eq_getElem _ _ hi]

/-- An item is replaced by one that `f` does not tell from it. -/
theorem map_set_of_eq {α β : Type} {f : α → β} {l : List α} (hi : i < l.length) {a : α}
    (h : f a = f l[i]) : (l.set i a).map f = l.map f := by
  rw [map_set, h, ← map_set, set_getElem_self]

theorem view_appendNode (t : TreeState) (path name parent : CString) :
    TreeState.view { t with nodes := t.nodes ++ [{ path, name, parent }] } =
      t.view ++ [(path, [])] :=
  map_append ..

variable {node : TreeNode} {name : CString}

theorem view_setNode (hi : i < t.nodes.length)
    (hpath : node.path = (t.node i).path) (hprops : node.properties = (t.node i).properties) :
    (setNode t i node).view = t.view := by
  rw [node_eq hi] at hpath hprops
  refine map_set_of_eq hi ?_
  rw [hpath, hprops]

theorem TreeState.Sound.setNode (ht : t.Sound)
    (hi : i < t.nodes.length) (hprops : node.properties = (t.node i).properties) :
    (setNode t i node).Sound where
  indices := by
    rw [node_eq hi] at hprops
    rw [Overlay.setNode, map_set_of_eq hi hprops]
    exact ht.indices
  nodes_le := by simpa [Overlay.setNode] using ht.nodes_le
  props_le := ht.props_le
  properties_le := by
    intro m hm
    rcases mem_or_eq_of_mem_set hm with hm | rfl
    · exact ht.properties_le m hm
    · rw [hprops, node_eq hi]
      exact ht.properties_le _ (getElem_mem _)

theorem TreeState.Sound.split (ht : t.Sound) (hi : i < t.nodes.length) :
    (t.node i).properties.Nodup ∧ (∀ k ∈ (t.node i).properties, k < t.props.length) ∧
      ∀ j (hj : j < t.nodes.length), j ≠ i → ∀ k ∈ (t.node i).properties,
        k ∉ (t.nodes[j]).properties := by
  have hnodup := ht.indices.nodup_iff.2 nodup_range
  rw [nodup_flatten] at hnodup
  obtain ⟨hone, hapart⟩ := hnodup
  refine ⟨?_, ?_, ?_⟩
  · rw [node_eq hi]
    exact hone _ (mem_map_of_mem (getElem_mem _))
  · intro k hk
    have hmem : k ∈ (t.nodes.map (·.properties)).flatten :=
      List.mem_flatten.2 ⟨_, mem_map_of_mem (getElem_mem hi), node_eq hi ▸ hk⟩
    exact List.mem_range.1 (ht.indices.mem_iff.1 hmem)
  · intro j hj hne k hk hk'
    rw [node_eq hi] at hk
    rw [pairwise_iff_getElem] at hapart
    rcases Nat.lt_or_gt_of_ne hne with hlt | hlt
    · have := hapart j i (by simpa using hj) (by simpa using hi) hlt
      simp only [getElem_map] at this
      exact this hk' hk
    · have := hapart i j (by simpa using hi) (by simpa using hj) hlt
      simp only [getElem_map] at this
      exact this hk hk'

theorem TreeState.Sound.total_view (ht : t.Sound) : total t.view = t.props.length := by
  have hlength := ht.indices.length_eq
  rw [length_range, length_flatten, map_map] at hlength
  rw [total, TreeState.view, map_map, ← hlength]
  congr 1
  refine map_congr_left fun node _ => ?_
  simp

theorem TreeState.Sound.fits (ht : t.Sound) : Fits t.view where
  nodes_le := by simpa using ht.nodes_le
  total_le := ht.total_view ▸ ht.props_le
  properties_le := by
    intro n hn
    obtain ⟨node, hnode, rfl⟩ := List.mem_map.1 hn
    simpa using ht.properties_le node hnode

theorem view_getElem (hi : i < t.nodes.length) (hview : i < t.view.length) :
    t.view[i] = ((t.node i).path, (t.node i).properties.map t.prop) := by
  simp [TreeState.view, node_eq hi]

/-! ## Storing a property -/

theorem prop_setValue (t : TreeState) (hk : k < t.props.length) (v : PropertyValue) :
    (setValue t k v).prop = update t.prop k { t.prop k with value := v } := by
  funext j
  rw [TreeState.prop, setValue, getD_eq_getElem?_getD, List.getElem?_set, update_apply]
  by_cases hj : j = k
  · subst hj
    simp [hk]
  · rw [if_neg (Ne.symm hj), if_neg hj, TreeState.prop, getD_eq_getElem?_getD]

theorem map_update_eq_store {l : List Nat} {f : Nat → TreeProperty}
    (hl : l.Nodup) (hk : l.find? (fun j => (f j).name = p.name) = some k) :
    l.map (update f k { f k with value := p.value }) = store (l.map f) p := by
  induction l with
  | nil => cases hk
  | cons a l ih =>
    obtain ⟨ha, hl⟩ := List.nodup_cons.1 hl
    rw [List.find?_cons] at hk
    rw [map_cons, map_cons, store]
    by_cases hname : (f a).name = p.name
    · rw [decide_eq_true hname] at hk
      cases hk
      rw [if_pos hname, update_self]
      congr 1
      refine map_congr_left fun j hj => update_of_ne ?_ ..
      rintro rfl
      exact ha hj
    · rw [decide_eq_false hname] at hk
      have hne : a ≠ k := by
        rintro rfl
        exact ha (mem_of_find?_eq_some hk)
      rw [if_neg hname, update_of_ne hne, ih hl hk]

theorem storeAt_eq {t' : TreeState} (hlength : t'.nodes.length = t.nodes.length)
    (hhere : ∀ hi : i < t'.nodes.length, (t'.nodes[i].path, t'.nodes[i].properties.map t'.prop) =
      ((t.node i).path, store ((t.node i).properties.map t.prop) p))
    (hthere : ∀ j (hj : j < t.nodes.length) (hj' : j < t'.nodes.length), j ≠ i →
      (t'.nodes[j].path, t'.nodes[j].properties.map t'.prop) =
        (t.nodes[j].path, t.nodes[j].properties.map t.prop)) : t'.view = storeAt t.view i [p] := by
  refine ext_getElem (by simpa using hlength) fun j h₁ h₂ => ?_
  rw [length_view] at h₁
  have hj : j < t.nodes.length := hlength ▸ h₁
  simp only [storeAt, getElem_modify, view_getElem h₁, view_getElem hj, node_eq h₁]
  by_cases hji : i = j
  · subst hji
    rw [if_pos rfl]
    exact hhere h₁
  · rw [if_neg hji, hthere j hj h₁ (Ne.symm hji), node_eq hj]

theorem findProperty_eq (ht : t.Sound) (hi : i < t.nodes.length) (name : CString) :
    findProperty t i name = (t.node i).properties.find? fun k => (t.prop k).name = name := by
  obtain ⟨-, hlt, -⟩ := ht.split hi
  refine List.find?_congr fun k hk => ?_
  simp [hlt k hk]

theorem value?_eq (ht : t.Sound) {n : NodeView} (hn : t.view[i]? = some n) (name : CString) :
    t.value? i name = (n.2.find? fun p => p.name = name).map (·.value) := by
  obtain ⟨hi, hget⟩ := List.getElem?_eq_some_iff.1 hn
  have hi' : i < t.nodes.length := by simpa using hi
  rw [view_getElem hi'] at hget
  rw [TreeState.value?, findProperty_eq ht hi', ← hget, List.find?_map, Option.map_map]
  rfl

theorem TreeState.Sound.setValue (ht : t.Sound) (k : Nat) (v : PropertyValue) :
    (setValue t k v).Sound where
  indices := by simpa [Overlay.setValue] using ht.indices
  nodes_le := ht.nodes_le
  props_le := by simpa [Overlay.setValue] using ht.props_le
  properties_le := ht.properties_le

theorem view_setValue (ht : t.Sound) (hi : i < t.nodes.length) (hk : findProperty t i name = some k)
    (v : PropertyValue) : (setValue t k v).view = storeAt t.view i [⟨name, v⟩] := by
  obtain ⟨hnodup, hlt, hapart⟩ := ht.split hi
  rw [findProperty_eq ht hi] at hk
  have hmem := mem_of_find?_eq_some hk
  have hprop := prop_setValue t (hlt k hmem) v
  refine storeAt_eq rfl (fun hi' => ?_) fun j hj hj' hne => ?_
  · rw [hprop, ← map_update_eq_store hnodup hk, node_eq hi]
    rfl
  · have hsame : t.nodes[j].properties.map (setValue t k v).prop =
        t.nodes[j].properties.map t.prop := by
      refine map_congr_left fun m hm => ?_
      rw [hprop, update_of_ne]
      rintro rfl
      exact hapart j hj hne m hmem hm
    exact Prod.ext rfl hsame

/-- The table with a property more, which node `i` gets. -/
def appendProperty (t : TreeState) (i : Nat) (p : TreeProperty) : TreeState :=
  let node := t.node i
  { setNode t i { node with properties := node.properties ++ [t.props.length] } with
    props := t.props ++ [p] }

theorem flatten_set_append {l : List (List Nat)} (hi : i < l.length) (k : Nat) :
    (l.set i (l[i] ++ [k])).flatten.Perm (l.flatten ++ [k]) := by
  induction l generalizing i with
  | nil => simp at hi
  | cons a l ih =>
    cases i with
    | zero =>
      simp only [set_cons_zero, getElem_cons_zero, flatten_cons, append_assoc]
      exact List.Perm.append_left a perm_append_comm
    | succ i =>
      simp only [set_cons_succ, getElem_cons_succ, flatten_cons, append_assoc]
      exact List.Perm.append_left a (ih (by simpa using hi))

theorem TreeState.Sound.appendProperty (ht : t.Sound)
    (hi : i < t.nodes.length) (p : TreeProperty) (hprops : t.props.length < maxTreeProps)
    (hnode : (t.node i).properties.length < maxNodeProperties) : (appendProperty t i p).Sound where
  indices := by
    have hi' : i < (t.nodes.map (·.properties)).length := by simpa using hi
    have hperm := flatten_set_append hi' t.props.length
    have hindices := ht.indices.append_right [t.props.length]
    simp only [Overlay.appendProperty, Overlay.setNode, map_set, length_append,
      length_singleton, range_succ]
    rw [getElem_map, ← node_eq hi] at hperm
    exact hperm.trans hindices
  nodes_le := by simpa [Overlay.appendProperty, Overlay.setNode] using ht.nodes_le
  props_le := by
    simp only [Overlay.appendProperty, length_append, length_singleton]
    omega
  properties_le := by
    intro node hnode'
    rcases mem_or_eq_of_mem_set hnode' with hmem | rfl
    · exact ht.properties_le node hmem
    · simp only [length_append, length_singleton]
      omega

theorem view_appendProperty (ht : t.Sound) (hi : i < t.nodes.length)
    (hname : findProperty t i name = none) (v : PropertyValue) :
    (appendProperty t i { name := copyString treeMaxPropertyName name, value := v }).view =
      storeAt t.view i [⟨name, v⟩] := by
  obtain ⟨-, hlt, -⟩ := ht.split hi
  rw [findProperty_eq ht hi, List.find?_eq_none] at hname
  set t' := appendProperty t i { name := copyString treeMaxPropertyName name, value := v } with ht'
  have hold : ∀ k, k < t.props.length → t'.prop k = t.prop k := by
    intro k hk
    simp only [ht', appendProperty, TreeState.prop, getD_eq_getElem?_getD]
    rw [List.getElem?_append_left hk]
  have hnew : t'.prop t.props.length = { name := copyString treeMaxPropertyName name, value := v } := by
    simp only [ht', appendProperty, TreeState.prop, getD_eq_getElem?_getD]
    simp
  refine storeAt_eq (by simp [ht', appendProperty, setNode]) (fun hi' => ?_) fun j hj hj' hne => ?_
  · have hsame : (t.node i).properties.map t'.prop = (t.node i).properties.map t.prop :=
      map_congr_left fun k hk => hold k (hlt k hk)
    have hstore : store ((t.node i).properties.map t.prop) ⟨name, v⟩ =
        (t.node i).properties.map t.prop ++
          [{ name := copyString treeMaxPropertyName name, value := v }] := by
      refine store_of_new fun q hq => ?_
      obtain ⟨k, hk, rfl⟩ := List.mem_map.1 hq
      simpa using hname k hk
    have hget : t'.nodes[i] = { t.node i with
        properties := (t.node i).properties ++ [t.props.length] } := by
      simp [ht', appendProperty, setNode]
    rw [hget, hstore]
    simp only [map_append, map_cons, map_nil, hsame, hnew]
  · have hget : t'.nodes[j] = t.nodes[j] := by
      simp [ht', appendProperty, setNode, Ne.symm hne]
    rw [hget]
    refine Prod.ext rfl (map_congr_left fun k hk => hold k ?_)
    obtain ⟨-, hltj, -⟩ := ht.split hj
    exact hltj k (node_eq hj ▸ hk)

end RadKernel.Overlay
