import RadKernel.Overlay.Decoding

/-!
# From a document to the tree

The nodes of a document are compiled, loaded into the tree that a reset leaves, and read back.
-/

namespace RadKernel.Overlay

open Words List

/-! ## The root is always there -/

/-- No node is lost. -/
structure Keeps (nodes : Nodes) (r : Except String Nodes) : Prop where
  mem : ∀ nodes', r = .ok nodes' → ∀ path ∈ nodes, path ∈ nodes'

namespace Keeps

variable {nodes : Nodes} {r : Except String Nodes}

theorem ok (nodes : Nodes) : Keeps nodes (.ok nodes) := by
  refine ⟨fun nodes' h path hpath => ?_⟩
  cases h
  exact hpath

theorem error (nodes : Nodes) (e : String) : Keeps nodes (.error e) := by
  refine ⟨fun nodes' h => ?_⟩
  cases h

theorem bind {next : Nodes → Except String Nodes} (h : Keeps nodes r)
    (hnext : ∀ nodes', Keeps nodes' (next nodes')) : Keeps nodes (r >>= next) := by
  refine ⟨fun nodes' h' path hpath => ?_⟩
  cases hr : r with
  | error e =>
    rw [hr] at h'
    cases h'
  | ok nodes₁ =>
    rw [hr] at h'
    exact (hnext nodes₁).mem nodes' h' path (h.mem nodes₁ hr path hpath)

theorem foldlM {α : Type} {f : Nodes → α → Except String Nodes}
    (hf : ∀ nodes x, Keeps nodes (f nodes x)) (items : List α) (nodes : Nodes) :
    Keeps nodes (items.foldlM f nodes) := by
  induction items generalizing nodes with
  | nil => exact ok nodes
  | cons x items ih =>
    exact (hf nodes x).bind ih

theorem setDefault {path : Str} (h : Keeps (setDefault nodes path) r) : Keeps nodes r := by
  refine ⟨fun nodes' h' p hp => h.mem nodes' h' p ?_⟩
  unfold Overlay.setDefault
  split_ifs
  · exact hp
  · exact AList.mem_insert _ |>.2 (.inr hp)

theorem addProperty (nodes : Nodes) (path name : Str) (value : Json) :
    Keeps nodes (addProperty nodes path name value) := by
  unfold Overlay.addProperty
  refine @setDefault _ _ path ⟨fun nodes' h p hp => ?_⟩
  cases hspec : propertySpec path name value with
  | error e =>
    rw [hspec] at h
    cases h
  | ok spec =>
    rw [hspec] at h
    cases h
    exact AList.mem_insert _ |>.2 (.inr hp)

variable (pyStr : Json → Str)

theorem addFields (path : Str) (nodes : Nodes) (fields : List (Str × Json)) :
    Keeps nodes (addFields pyStr path nodes fields) := by
  refine (addFields.mutual_induct pyStr
    (fun path nodes fields => Keeps nodes (Overlay.addFields pyStr path nodes fields))
    (fun path key nodes value => Keeps nodes (addField pyStr path key nodes value))
    (fun root key index nodes items => Keeps nodes (addItems pyStr root key index nodes items))
    ?_ ?_ ?_ ?_ ?_ ?_ ?_ ?_ ?_).1 path nodes fields
  · intro path key nodes fields ih
    exact ih.setDefault
  · intro path key nodes items hempty
    rw [addField, if_pos hempty]
    exact addProperty ..
  · intro path key nodes items hitems ih
    rw [addField, if_neg hitems]
    exact ih.setDefault
  · intro path key nodes value hobj harr
    rw [addField.eq_3 pyStr path key nodes value hobj harr]
    exact addProperty ..
  · intro root key index nodes
    exact ok nodes
  · intro root key index nodes fields rest child ih ihrest
    exact ih.setDefault.bind ihrest
  · intro root key index nodes head rest hobj ih
    rw [addItems.eq_3 pyStr root key index nodes head rest hobj]
    exact ih
  · intro path nodes
    exact ok nodes
  · intro path nodes key value rest ih ihrest
    exact ih.bind ihrest

section
variable (document : List (Str × Json))
include document

theorem addRootProperty (name : String) (nodes : Nodes) :
    Keeps nodes (addRootProperty document name nodes) := by
  unfold Overlay.addRootProperty
  split
  · exact ok nodes
  · exact addProperty ..

theorem addBoot (nodes : Nodes) : Keeps nodes (addBoot pyStr document nodes) := by
  unfold Overlay.addBoot
  split
  · exact ok nodes
  · split
    · exact error nodes _
    · exact (addFields pyStr ..).setDefault

theorem addMemory (nodes : Nodes) : Keeps nodes (addMemory pyStr document nodes) := by
  unfold Overlay.addMemory
  split
  · exact ok nodes
  · exact (addFields pyStr ..).setDefault

end

theorem addFragment (nodes : Nodes) (fragment : Json) :
    Keeps nodes (addFragment nodes fragment) := by
  have hchild : ∀ target nodes child, Keeps nodes (addChild target nodes child) := by
    intro target nodes child
    unfold addChild
    split
    · exact error nodes _
    · exact (foldlM (fun nodes field => addProperty ..) _ _).setDefault
  unfold Overlay.addFragment
  split
  · exact error nodes _
  · split
    · exact error nodes _
    · next target _ =>
      split_ifs
      · exact error nodes _
      · refine @setDefault _ _ target ?_
        cases objectField _ "properties" "fragment properties must be an object" with
        | error e => exact error _ e
        | ok properties =>
          refine bind (foldlM (fun nodes field => addProperty ..) properties _) fun nodes => ?_
          cases objectField _ "children" "fragment children must be an object" with
          | error e => exact error _ e
          | ok children => exact foldlM (hchild _) children nodes

end Keeps

variable {nodes : Nodes} {v ns : List NodeView} {t : TreeState}

theorem root_mem_collectNodes {pyStr : Json → Str} {document : List (Str × Json)}
    (h : collectNodes pyStr document = .ok nodes) : ['/'] ∈ nodes := by
  have hkeeps : Keeps (setDefault ∅ ['/']) (collectNodes pyStr document) := by
    refine (Keeps.addRootProperty ..).bind fun _ => (Keeps.addRootProperty ..).bind fun _ =>
      (Keeps.addBoot ..).bind fun _ => (Keeps.addMemory ..).bind fun nodes => ?_
    split
    · exact .ok nodes
    · exact .foldlM Keeps.addFragment _ nodes
    · exact .error nodes _
  exact hkeeps.mem nodes h _ (by decide)

/-! ## The nodes in order -/

variable {properties : Properties} {name : CString}

theorem mem_sortedItems {item : Str × PropertySpec} :
    item ∈ sortedItems properties ↔ properties.lookup item.1 = some item.2 := by
  rw [sortedItems, (perm_insertionSort ..).mem_iff, mem_map, ← Option.mem_def, AList.mem_lookup_iff]
  constructor
  · rintro ⟨⟨name, spec⟩, hmem, rfl⟩
    exact hmem
  · intro hmem
    exact ⟨_, hmem, rfl⟩

theorem names_sortedItems (properties : Properties) :
    ((sortedItems properties).map Prod.fst).Nodup := by
  have hperm := (perm_insertionSort (fun p q : Str × PropertySpec => p.1 ≤ q.1)
    (properties.entries.map fun item => (item.1, item.2))).map Prod.fst
  rw [map_map] at hperm
  exact hperm.nodup_iff.2 properties.nodupKeys

@[simp] theorem length_sortedItems (properties : Properties) :
    (sortedItems properties).length = properties.entries.length := by
  simp [sortedItems]

theorem sortedNodes_perm (nodes : Nodes) :
    (sortedNodes nodes).Perm (nodes.entries.map fun node => (node.1, sortedItems node.2)) := by
  have hkeys : nodes.keys.map (fun path => (path, sortedItems ((nodes.lookup path).getD ∅))) =
      nodes.entries.map fun node => (node.1, sortedItems node.2) := by
    rw [AList.keys, List.keys, map_map]
    refine map_congr_left fun node hnode => ?_
    have hlookup : nodes.lookup node.1 = some node.2 := AList.mem_lookup_iff.2 hnode
    rw [Function.comp_apply, hlookup, Option.getD_some]
  exact hkeys ▸ (perm_insertionSort (fun p q : Str => pathLe p q) nodes.keys).map _

theorem mem_sortedNodes {node : Str × List (Str × PropertySpec)} :
    node ∈ sortedNodes nodes ↔
      ∃ properties, nodes.lookup node.1 = some properties ∧ node.2 = sortedItems properties := by
  rw [(sortedNodes_perm nodes).mem_iff, mem_map]
  constructor
  · rintro ⟨⟨path, properties⟩, hmem, rfl⟩
    exact ⟨properties, AList.mem_lookup_iff.2 hmem, rfl⟩
  · rintro ⟨properties, hlookup, hitems⟩
    exact ⟨⟨node.1, properties⟩, AList.mem_lookup_iff.1 hlookup, Prod.ext rfl hitems.symm⟩

theorem paths_sortedNodes (nodes : Nodes) : ((sortedNodes nodes).map Prod.fst).Nodup := by
  have hperm := (sortedNodes_perm nodes).map Prod.fst
  rw [map_map] at hperm
  exact hperm.nodup_iff.2 nodes.nodupKeys

/-! ## Merging -/

/-- The strings fit, and no name stands twice. -/
structure Storable (n : NodeView) : Prop where
  path : copyString treeMaxPath n.1 = n.1
  name : ∀ p ∈ n.2, copyString treeMaxPropertyName p.name = p.name
  nodup : (n.2.map (·.name)).Nodup

theorem storeAll_of_new {ps qs : List TreeProperty}
    (hname : ∀ q ∈ qs, copyString treeMaxPropertyName q.name = q.name)
    (hnodup : ((ps ++ qs).map (·.name)).Nodup) : storeAll ps qs = ps ++ qs := by
  induction qs generalizing ps with
  | nil => exact (append_nil ps).symm
  | cons q qs ih =>
    have hnew : ∀ p ∈ ps, p.name ≠ q.name := by
      intro p hp
      rw [map_append, nodup_append] at hnodup
      exact hnodup.2.2 _ (mem_map_of_mem hp) _ (mem_map_of_mem mem_cons_self)
    have hstore : store ps q = ps ++ [q] := by
      rw [store_of_new hnew, hname q mem_cons_self]
    rw [append_cons] at hnodup
    rw [storeAll, foldl_cons, hstore]
    exact (ih (fun q hq => hname q (mem_cons_of_mem _ hq)) hnodup).trans (append_cons ..).symm

theorem Storable.storeAll {n : NodeView} (h : Storable n) : storeAll [] n.2 = n.2 :=
  storeAll_of_new h.name h.nodup

theorem mergeAll_of_new (hns : ∀ n ∈ ns, Storable n)
    (hnodup : ((v ++ ns).map Prod.fst).Nodup) : mergeAll v ns = v ++ ns := by
  induction ns generalizing v with
  | nil => exact (append_nil v).symm
  | cons n ns ih =>
    have hn := hns n mem_cons_self
    have hnew : (v.findIdx? fun m => m.1 = n.1) = none := by
      refine List.findIdx?_eq_none_iff.2 fun m hm => decide_eq_false ?_
      rw [map_append, nodup_append] at hnodup
      exact hnodup.2.2 _ (mem_map_of_mem hm) _ (mem_map_of_mem mem_cons_self)
    have hmerge : merge v n = v ++ [n] := by
      rw [merge, hnew, hn.path, hn.storeAll]
    rw [append_cons] at hnodup
    rw [mergeAll, foldl_cons, hmerge]
    exact (ih (fun n hn => hns n (mem_cons_of_mem _ hn)) hnodup).trans (append_cons ..).symm

/-- The root, which is there from the start, comes first; the other nodes follow in order. -/
theorem mergeAll_reset (hns : ∀ n ∈ ns, Storable n)
    (hnodup : (ns.map Prod.fst).Nodup) (hroot : ∃ n ∈ ns, n.1 = text "/") :
    (mergeAll radOverlayReset.view ns).Perm ns := by
  obtain ⟨root, hmem, hpath⟩ := hroot
  obtain ⟨before, after, rfl⟩ := append_of_mem hmem
  have hview : radOverlayReset.view = [(root.1, [])] := by
    rw [hpath]
    decide
  have hperm : (before ++ root :: after).Perm (root :: before ++ after) := perm_middle
  have hnodup' := (hperm.map Prod.fst).nodup_iff.1 hnodup
  have hbefore : mergeAll [(root.1, [])] before = (root.1, []) :: before := by
    refine mergeAll_of_new (fun n hn => hns n (mem_append_left _ hn)) ?_
    rw [map_append] at hnodup'
    exact hnodup'.of_append_left
  have hmerge : merge ((root.1, []) :: before) root = root :: before := by
    have hfind : (((root.1, []) :: before : List NodeView).findIdx? fun m => m.1 = root.1) =
        some 0 := by
      simp [List.findIdx?_cons]
    rw [merge, hfind]
    show (root.1, storeAll [] root.2) :: before = root :: before
    rw [(hns root hmem).storeAll]
  have hafter : mergeAll (root :: before) after = root :: before ++ after :=
    mergeAll_of_new (fun n hn => hns n (mem_append_right _ (mem_cons_of_mem _ hn))) hnodup'
  rw [hview, mergeAll, foldl_append, foldl_cons]
  rw [mergeAll] at hbefore hafter
  rw [hbefore, hmerge, hafter]
  exact hperm.symm

theorem Fits.perm {w : List NodeView} (h : Fits w) (hperm : v.Perm w) : Fits v where
  nodes_le := hperm.length_eq ▸ h.nodes_le
  total_le := by
    rw [total, (hperm.map _).sum_nat]
    exact h.total_le
  properties_le n hn := h.properties_le n (hperm.mem_iff.1 hn)

/-! ## Questions to a tree -/

def u32Answer : Option PropertySpec → Except Status Nat
  | some (.u32 n) => .ok n
  | some _ => .error .invalidArgument
  | none => .error .notFound

def boolAnswer : Option PropertySpec → Except Status Bool
  | some (.bool v) => .ok v
  | some _ => .error .invalidArgument
  | none => .error .notFound

/-- A buffer without bytes gets no answer, one that is too small the first bytes. -/
def stringAnswer (size : Nat) : Option PropertySpec → Except Status CString
  | some (.string s) => if size = 0 then .error .notFound else .ok (copyString size (utf8 s))
  | some (.strings l) =>
    if size = 0 then .error .notFound else .ok (copyString size (utf8 (l.headD [])))
  | some _ => if size = 0 then .error .notFound else .error .invalidArgument
  | none => .error .notFound

def u32ArrayAnswer (capacity : Nat) : Option PropertySpec → Nat × List Nat
  | some (.u32s l) => (l.length, l.take capacity)
  | _ => (0, [])

/-- The tree answers as a node does that has the property with that value, or does not have it. -/
structure AnswersAs (t : TreeState) (i : Nat) (name : CString) (spec? : Option PropertySpec) :
    Prop where
  u32 : radTreeGetPropertyU32 t i name = u32Answer spec?
  bool : radTreeGetPropertyBool t i name = boolAnswer spec?
  string : ∀ size, radTreeGetPropertyString t i name size = stringAnswer size spec?
  u32Array : ∀ capacity, radTreeGetPropertyU32Array t i name capacity = u32ArrayAnswer capacity spec?

/-- The nodes of the document are found, with their properties and no other ones, and no other
nodes. -/
structure Shows (t : TreeState) (nodes : Nodes) : Prop where
  found : ∀ path properties, nodes.lookup path = some properties →
    ∃ i, findNode t (utf8 path) = some i ∧
      (∀ name, AnswersAs t i (utf8 name) (properties.lookup name)) ∧
      ∀ name, (∀ s, utf8 s ≠ name) → AnswersAs t i name none
  notFound : ∀ path, (∀ s ∈ nodes, utf8 s ≠ path) → findNode t path = none

theorem AnswersAs.of_value {i : Nat} {spec? : Option PropertySpec}
    (h : t.value? i name = spec?.map (·.value)) : AnswersAs t i name spec? := by
  have hstring : ∀ size, radTreeGetPropertyString t i name size = stringAnswer size spec? := by
    intro size
    rw [radTreeGetPropertyString, h]
    cases spec? with
    | none => rfl
    | some spec => cases spec <;> rfl
  have harray : ∀ capacity,
      radTreeGetPropertyU32Array t i name capacity = u32ArrayAnswer capacity spec? := by
    intro capacity
    rw [radTreeGetPropertyU32Array, TreeState.valueOf?, h]
    cases spec? with
    | none => rfl
    | some spec => cases spec <;> rfl
  refine ⟨?_, ?_, hstring, harray⟩
  · rw [radTreeGetPropertyU32, h]
    cases spec? with
    | none => rfl
    | some spec => cases spec <;> rfl
  · rw [radTreeGetPropertyBool, h]
    cases spec? with
    | none => rfl
    | some spec => cases spec <;> rfl

theorem find_propertyOf (name : Str) :
    ((sortedItems properties).map propertyOf).find? (fun p => p.name = utf8 name) =
      (properties.lookup name).map fun spec => propertyOf (name, spec) := by
  rw [List.find?_map]
  cases hfind : (sortedItems properties).find?
      ((fun p : TreeProperty => decide (p.name = utf8 name)) ∘ propertyOf) with
  | none =>
    cases hlookup : properties.lookup name with
    | none => rfl
    | some spec =>
      have hmem : (name, spec) ∈ sortedItems properties := mem_sortedItems.2 hlookup
      have hnot := List.find?_eq_none.1 hfind _ hmem
      exact absurd (decide_eq_true rfl) hnot
  | some item =>
    have hitem := mem_sortedItems.1 (mem_of_find?_eq_some hfind)
    have hsame := List.find?_some hfind
    have hname : item.1 = name := utf8_injective (of_decide_eq_true hsame)
    rw [← hname, hitem]
    rfl

theorem find_propertyOf_of_foreign {items : List (Str × PropertySpec)}
    (h : ∀ s, utf8 s ≠ name) : (items.map propertyOf).find? (fun p => p.name = name) = none := by
  refine List.find?_eq_none.2 fun p hp => ?_
  obtain ⟨item, -, rfl⟩ := List.mem_map.1 hp
  exact fun hname => h item.1 (of_decide_eq_true hname)

theorem Shows.of_view (ht : t.Sound)
    (hview : t.view.Perm ((sortedNodes nodes).map nodeOf)) : Shows t nodes := by
  have hnode : ∀ n ∈ t.view, ∃ path properties, nodes.lookup path = some properties ∧
      n = nodeOf (path, sortedItems properties) := by
    intro n hn
    obtain ⟨⟨path, items⟩, hmem, rfl⟩ := List.mem_map.1 (hview.mem_iff.1 hn)
    obtain ⟨properties, hlookup, hitems⟩ := mem_sortedNodes.1 hmem
    exact ⟨path, properties, hlookup, congrArg (fun items => nodeOf (path, items)) hitems⟩
  constructor
  · intro path properties hlookup
    have hmem : nodeOf (path, sortedItems properties) ∈ t.view :=
      hview.mem_iff.2 (mem_map_of_mem (mem_sortedNodes.2 ⟨properties, hlookup, rfl⟩))
    cases hfind : findNode t (utf8 path) with
    | none =>
      rw [findNode_eq, List.findIdx?_eq_none_iff] at hfind
      exact absurd (decide_eq_true rfl) (Bool.eq_false_iff.1 (hfind _ hmem))
    | some i =>
      rw [findNode_eq, List.findIdx?_eq_some_iff_getElem] at hfind
      obtain ⟨hi, hpath, -⟩ := hfind
      obtain ⟨path', properties', hlookup', hn⟩ := hnode _ (getElem_mem hi)
      rw [hn] at hpath
      obtain rfl : path' = path := utf8_injective (of_decide_eq_true hpath)
      obtain rfl : properties' = properties := Option.some.inj (hlookup'.symm.trans hlookup)
      have hget : t.view[i]? = some (nodeOf (path', sortedItems properties')) := by
        rw [List.getElem?_eq_getElem hi, hn]
      refine ⟨i, rfl, fun name => .of_value ?_, fun name hname => .of_value ?_⟩
      · rw [value?_eq ht hget, nodeOf, find_propertyOf, Option.map_map]
        rfl
      · rw [value?_eq ht hget, nodeOf, find_propertyOf_of_foreign hname]
        rfl
  · intro path hpath
    rw [findNode_eq]
    refine List.findIdx?_eq_none_iff.2 fun n hn => decide_eq_false ?_
    obtain ⟨path', properties, hlookup, rfl⟩ := hnode n hn
    exact hpath path' (AList.lookup_isSome.1 (Option.isSome_of_mem hlookup))

/-! ## The round trip -/

/-- The limits of the runtime. -/
structure RuntimeFits (nodes : Nodes) : Prop where
  nodes_le : nodes.entries.length ≤ maxTreeNodes
  total_le : (nodes.entries.map fun node => node.2.entries.length).sum ≤ maxTreeProps
  path : ∀ node ∈ nodes.entries, FitsIn treeMaxPath node.1
  properties_le : ∀ node ∈ nodes.entries, node.2.entries.length ≤ maxNodeProperties
  property : ∀ node ∈ nodes.entries, ∀ item ∈ node.2.entries,
    FitsIn treeMaxPropertyName item.1 ∧ item.2.Fits

namespace RuntimeFits

variable {nodes : Nodes}

instance (nodes : Nodes) : Decidable (RuntimeFits nodes) :=
  decidable_of_iff
    (nodes.entries.length ≤ maxTreeNodes ∧
      (nodes.entries.map fun node => node.2.entries.length).sum ≤ maxTreeProps ∧
      (∀ node ∈ nodes.entries, FitsIn treeMaxPath node.1) ∧
      (∀ node ∈ nodes.entries, node.2.entries.length ≤ maxNodeProperties) ∧
      ∀ node ∈ nodes.entries, ∀ item ∈ node.2.entries,
        FitsIn treeMaxPropertyName item.1 ∧ item.2.Fits)
    ⟨fun ⟨h, h', h'', h₃, h₄⟩ => ⟨h, h', h'', h₃, h₄⟩,
      fun ⟨h, h', h'', h₃, h₄⟩ => ⟨h, h', h'', h₃, h₄⟩⟩

theorem entry {node : Str × List (Str × PropertySpec)} (hnode : node ∈ sortedNodes nodes) :
    ∃ n ∈ nodes.entries, node = (n.1, sortedItems n.2) := by
  obtain ⟨n, hn, rfl⟩ := List.mem_map.1 ((sortedNodes_perm nodes).mem_iff.1 hnode)
  exact ⟨n, hn, rfl⟩

section
variable (h : RuntimeFits nodes)
include h

theorem item {n : Sigma fun _ : Str => Properties} (hn : n ∈ nodes.entries)
    {i : Str × PropertySpec} (hi : i ∈ sortedItems n.2) :
    FitsIn treeMaxPropertyName i.1 ∧ i.2.Fits :=
  h.property n hn ⟨i.1, i.2⟩ (AList.mem_lookup_iff.1 (mem_sortedItems.1 hi))

theorem legible : ∀ node ∈ sortedNodes nodes, Legible node := by
  intro node hnode
  obtain ⟨n, hn, rfl⟩ := entry hnode
  exact ⟨(h.path n hn).1, fun i hi => ⟨(h.item hn hi).1.1, (h.item hn hi).2⟩⟩

theorem storable : ∀ n ∈ (sortedNodes nodes).map nodeOf, Storable n := by
  intro m hm
  obtain ⟨node, hnode, rfl⟩ := List.mem_map.1 hm
  obtain ⟨n, hn, rfl⟩ := entry hnode
  refine ⟨copyString_fits (h.path n hn), ?_, ?_⟩
  · intro p hp
    obtain ⟨i, hi, rfl⟩ := List.mem_map.1 hp
    exact copyString_fits (h.item hn hi).1
  · have hnodup := (names_sortedItems n.2).map utf8_injective
    rw [map_map] at hnodup
    rw [nodeOf, map_map]
    exact hnodup

theorem fits : Fits ((sortedNodes nodes).map nodeOf) where
  nodes_le := by
    rw [length_map, (sortedNodes_perm nodes).length_eq, length_map]
    exact h.nodes_le
  total_le := by
    have hsum := ((sortedNodes_perm nodes).map fun node => node.2.length).sum_nat
    simp only [total, nodeOf, map_map, Function.comp_def, length_map, length_sortedItems] at hsum ⊢
    exact hsum ▸ h.total_le
  properties_le := by
    intro m hm
    obtain ⟨node, hnode, rfl⟩ := List.mem_map.1 hm
    obtain ⟨n, hn, rfl⟩ := entry hnode
    simpa [nodeOf] using h.properties_le n hn

end

end RuntimeFits

/-- What is compiled from a document is loaded, and then the tree shows the nodes of the
document. -/
theorem roundTrip {pyStr : Json → Str} {document : Json} {fields : List (Str × Json)}
    {nodes : Nodes} {bytes : List UInt8} (beyond : List UInt8)
    (hdocument : document.obj? = some fields) (hnodes : collectNodes pyStr fields = .ok nodes)
    (hfits : RuntimeFits nodes) (hbytes : buildBlob pyStr document = .ok bytes) :
    (radOverlayLoadMemory radOverlayReset bytes beyond).1 = .ok ∧
      Shows (radOverlayLoadMemory radOverlayReset bytes beyond).2 nodes := by
  have hroot : ∃ n ∈ (sortedNodes nodes).map nodeOf, n.1 = text "/" := by
    obtain ⟨properties, hlookup⟩ :=
      Option.isSome_iff_exists.1 (AList.lookup_isSome.2 (root_mem_collectNodes hnodes))
    have hmem : (['/'], sortedItems properties) ∈ sortedNodes nodes :=
      mem_sortedNodes.2 ⟨properties, hlookup, rfl⟩
    exact ⟨_, List.mem_map_of_mem hmem, show utf8 ['/'] = text "/" by decide⟩
  have hpaths : (((sortedNodes nodes).map nodeOf).map Prod.fst).Nodup := by
    have hnodup := (paths_sortedNodes nodes).map utf8_injective
    rw [List.map_map] at hnodup ⊢
    exact hnodup
  have hperm := mergeAll_reset hfits.storable hpaths hroot
  unfold buildBlob at hbytes
  simp only [hdocument, hnodes, bind, Except.bind] at hbytes
  cases hbuild : buildNodes nodes with
  | error e => simp [hbuild] at hbytes
  | ok b =>
    rw [hbuild] at hbytes
    have hb := buildNodes_recorded hbuild
    have hparse := parseBlob_blob beyond hb.length_nodes hb.props hbytes
    have hcontents := hb.contents beyond (length_propRecords_lt hbytes) hfits.legible
    have hmerged : merged radOverlayReset bytes beyond =
        some (mergeAll radOverlayReset.view ((sortedNodes nodes).map nodeOf)) := by
      rw [merged, if_neg (by decide), hparse, Option.bind_some, hcontents, Option.map_some]
    have hloads := radOverlayLoadMemory_loads .reset bytes beyond
    rw [hmerged] at hloads
    have hok := hloads.ok_iff.2 ⟨_, rfl, hfits.fits.perm hperm⟩
    exact ⟨hok, .of_view hloads.sound (hloads.view hok _ rfl ▸ hperm)⟩

/-- A board with a bus and a device on it. -/
def board : List (Str × Json) :=
  [("name".toList, .str "board".toList),
   ("fragments".toList, .arr [.obj
     [("target".toList, .str "/soc/i2c@0".toList),
      ("properties".toList, .obj
        [("bus-id".toList, .int 3), ("okay".toList, .bool true),
         ("cells".toList, .arr [.int 5, .int 1]),
         ("compatible".toList, .arr [.str "a,b".toList, .str "c".toList])]),
      ("children".toList, .obj [("temp@48".toList, .obj [("reg".toList, .int 72)])])]])]

set_option maxRecDepth 20000 in
theorem roundTrip_board :
    ∃ nodes bytes, collectNodes (fun _ => []) board = .ok nodes ∧
      buildBlob (fun _ => []) (.obj board) = .ok bytes ∧
      Shows (radOverlayLoadMemory radOverlayReset bytes []).2 nodes := by
  have hfits : (collectNodes (fun _ => []) board).toOption.any
      (fun nodes => decide (RuntimeFits nodes)) = true := by decide +kernel
  have hok : (buildBlob (fun _ => []) (.obj board)).toOption.isSome = true := by decide +kernel
  cases hnodes : collectNodes (fun _ => []) board with
  | error e =>
    rw [hnodes] at hfits
    cases hfits
  | ok nodes =>
    rw [hnodes] at hfits
    cases hbytes : buildBlob (fun _ => []) (.obj board) with
    | error e =>
      rw [hbytes] at hok
      cases hok
    | ok bytes =>
      exact ⟨nodes, bytes, rfl, rfl, (roundTrip [] rfl hnodes (of_decide_eq_true hfits) hbytes).2⟩

end RadKernel.Overlay
