import Mathlib.Data.Finset.Card
import RadKernel.Overlay.Binding

/-!
# When a pass over the tree succeeds

A pass of `rad_i2c_bind_tree` or `bind_spi_tree` fails when it finds no free record for a device, or
when a probe fails. Both can be told from the tables before the pass: there are as many free records
as paths of new devices, and for each path that is not bound the first node with a driver answers
`RAD_STATUS_OK`.
-/

namespace RadKernel.Overlay

open List

variable {kind : BusKind} {t : TreeState} {s s' : Buses} {b : Bus} {i k : Nat} {path : CString}
  {answers : Nat → Status} {nodes : List Nat}

/-! ## Trees up to their bound flags -/

def unboundNode (node : TreeNode) : TreeNode := { node with bound := false }

/-- The tree with the bound flags dropped. -/
def unboundTree (t : TreeState) : TreeState := { t with nodes := t.nodes.map unboundNode }

section
variable (t)

theorem node_unboundTree (i : Nat) : (unboundTree t).node i = unboundNode (t.node i) := by
  simp only [TreeState.node, unboundTree, getD_eq_getElem?_getD, List.getElem?_map]
  cases t.nodes[i]? <;> rfl

theorem findNode_unboundTree (path : CString) :
    findNode (unboundTree t) path = findNode t path := by
  rw [findNode, unboundTree, List.findIdx?_map]
  rfl

theorem value?_unboundTree (i : Nat) (name : CString) :
    (unboundTree t).value? i name = t.value? i name := by
  rw [TreeState.value?, TreeState.value?, findProperty, findProperty, node_unboundTree]
  rfl

theorem u32Of?_unboundTree (i : Nat) (name : String) :
    u32Of? (unboundTree t) i name = u32Of? t i name := by
  rw [u32Of?, u32Of?, TreeState.valueOf?, TreeState.valueOf?, value?_unboundTree]

theorem stringOf?_unboundTree (i : Nat) (name : String) :
    stringOf? (unboundTree t) i name = stringOf? t i name := by
  rw [stringOf?, stringOf?, TreeState.valueOf?, TreeState.valueOf?, value?_unboundTree]

end

theorem nodeIsUnder_unboundTree (kind : BusKind) (t : TreeState) (i : Nat) :
    nodeIsUnder kind (unboundTree t) i = nodeIsUnder kind t i := by
  simp only [nodeIsUnder, node_unboundTree, findNode_unboundTree, u32Of?_unboundTree, unboundNode]

theorem unitOf?_unboundTree (kind : BusKind) (t : TreeState) (i : Nat) :
    unitOf? kind (unboundTree t) i = unitOf? kind t i := by
  simp only [unitOf?, u32Of?_unboundTree]

theorem unboundTree_setBound (t : TreeState) (i : Nat) (bound : Bool) :
    unboundTree (setBound t i bound) = unboundTree t := by
  have hnodes : (t.nodes.set i { t.node i with bound := bound }).map unboundNode =
      t.nodes.map unboundNode := by
    refine ext_getElem (by simp) fun j hj hj' => ?_
    simp only [getElem_map, getElem_set]
    split_ifs with hij
    · subst hij
      have hlt : i < t.nodes.length := by simpa using hj'
      rw [TreeState.node, getD_eq_getElem?_getD, List.getElem?_eq_getElem hlt]
      rfl
    · rfl
  exact congrArg (fun nodes => { t with nodes := nodes }) hnodes

/-! ## What a node asks for -/

/-- The compatible string of the device that a node describes, when its controller is there. -/
def wanted (kind : BusKind) (s : Buses) (i : Nat) : Option CString :=
  match nodeIsUnder kind s.tree i, unitOf? kind s.tree i with
  | some busId, some _ =>
    if (findController (s.bus kind) busId).isSome then stringOf? s.tree i "compatible" else none
  | _, _ => none

/-- There is a driver for the device of a node. -/
def HasDriver (kind : BusKind) (s : Buses) (i : Nat) : Prop :=
  (wanted kind s i).any (fun compatible =>
    (findDriverByCompatible (s.bus kind) (copyString compatibleMax compatible)).isSome) = true

instance (kind : BusKind) (s : Buses) (i : Nat) : Decidable (HasDriver kind s i) :=
  inferInstanceAs (Decidable (_ = true))

/-- A device with the path has a record. -/
def Recorded (b : Bus) (path : CString) : Prop := (findDeviceByPath b path).isSome = true

/-- A device with the path is bound. -/
def BoundAt (b : Bus) (path : CString) : Prop :=
  (findDeviceByPath b path).any (fun k => (b.devices k).bound) = true

instance (b : Bus) (path : CString) : Decidable (Recorded b path) :=
  inferInstanceAs (Decidable (_ = true))

instance (b : Bus) (path : CString) : Decidable (BoundAt b path) :=
  inferInstanceAs (Decidable (_ = true))

def freeDevices (b : Bus) : Finset Nat :=
  (Finset.range maxBusDevices).filter fun k => (b.devices k).controller = none

/-- The paths of the nodes that ask for a device and have none. -/
def newPaths (kind : BusKind) (s : Buses) (nodes : List Nat) : Finset CString :=
  ((nodes.filter fun i => (wanted kind s i).isSome ∧
    ¬ Recorded (s.bus kind) (s.tree.node i).path).map fun i => (s.tree.node i).path).toFinset

/-- Every node that asks for a device finds a record. -/
def HasRoom (kind : BusKind) (s : Buses) (nodes : List Nat) : Prop :=
  (newPaths kind s nodes).card ≤ (freeDevices (s.bus kind)).card

/-- The probes succeed: those of the first nodes with a driver for paths that are not bound. -/
def ProbesSucceed (kind : BusKind) (s : Buses) (answers : Nat → Status) (nodes : List Nat) : Prop :=
  ∀ before i after, nodes = before ++ i :: after → HasDriver kind s i →
    BoundAt (s.bus kind) (s.tree.node i).path ∨
      (∃ j ∈ before, HasDriver kind s j ∧ (s.tree.node j).path = (s.tree.node i).path) ∨
      answers i = .ok

/-- What no round of a pass changes. -/
structure SameBus (kind : BusKind) (s s' : Buses) : Prop where
  tree : unboundTree s'.tree = unboundTree s.tree
  controllers : (s'.bus kind).controllers = (s.bus kind).controllers
  drivers : (s'.bus kind).drivers = (s.bus kind).drivers

namespace SameBus

section
variable (h : SameBus kind s s') (i : Nat)
include h

theorem wanted : wanted kind s' i = wanted kind s i := by
  have hunder := (nodeIsUnder_unboundTree kind s'.tree i).symm.trans
    (h.tree ▸ nodeIsUnder_unboundTree kind s.tree i)
  have hunit := (unitOf?_unboundTree kind s'.tree i).symm.trans
    (h.tree ▸ unitOf?_unboundTree kind s.tree i)
  have hcompatible := (stringOf?_unboundTree s'.tree i "compatible").symm.trans
    (h.tree ▸ stringOf?_unboundTree s.tree i "compatible")
  have hfind : ∀ busId, findController (s'.bus kind) busId = findController (s.bus kind) busId :=
    fun busId => by rw [findController, findController, h.controllers]
  unfold Overlay.wanted
  rw [hunder, hunit, hcompatible]
  simp only [hfind]

theorem hasDriver : HasDriver kind s' i ↔ HasDriver kind s i := by
  simp only [HasDriver, h.wanted, findDriverByCompatible, h.drivers]

theorem nodePath : (s'.tree.node i).path = (s.tree.node i).path := by
  have hnode := congrArg (fun t => (t.node i).path) h.tree
  rwa [node_unboundTree, node_unboundTree] at hnode

end

end SameBus

/-! ## Records of devices -/

/-- The record that a device with the path gets: the one it has, or a free one. -/
def SlotFor (b : Bus) (path : CString) (k : Nat) : Prop :=
  findDeviceByPath b path = some k ∨
    findDeviceByPath b path = none ∧ k ∈ freeDevices b

theorem deviceSlot_slotFor {b' : Bus} (h : deviceSlot b path = some (k, b')) :
    SlotFor b path k ∧ b'.controllers = b.controllers ∧ b'.drivers = b.drivers ∧
      (∀ j, j ≠ k → b'.devices j = b.devices j) ∧
      ((b'.devices k).bound = true ↔ BoundAt b path) := by
  obtain ⟨hfind, rfl⟩ | ⟨hfind, hk, hfree, rfl⟩ := deviceSlot_some h
  · exact ⟨.inl hfind, rfl, rfl, fun _ _ => rfl, by rw [BoundAt, hfind]; exact Iff.rfl⟩
  · refine ⟨.inr ⟨hfind, Finset.mem_filter.2 ⟨Finset.mem_range.2 hk, hfree⟩⟩, rfl, rfl,
      fun j hne => ?_, ?_⟩
    · rw [Bus.clearDevice, Bus.setDevice_devices, if_neg hne]
      rfl
    · rw [Bus.clearDevice, Bus.setDevice_devices, if_pos rfl, BoundAt, hfind]
      simp

theorem deviceSlot_none (h : deviceSlot b path = none) : ¬ Recorded b path ∧ freeDevices b = ∅ := by
  unfold deviceSlot at h
  cases hfind : findDeviceByPath b path with
  | some j =>
    rw [hfind] at h
    cases h
  | none =>
    rw [hfind] at h
    refine ⟨by rw [Recorded, hfind]; decide, Finset.filter_eq_empty_iff.2 fun k hk hnone => ?_⟩
    have hall := List.find?_eq_none.1 (Option.map_eq_none_iff.1 h) k
      (List.mem_range.2 (Finset.mem_range.1 hk))
    exact hall (by rw [hnone]; rfl)

/-- A record of the device with the path is written. -/
structure Writes (b b' : Bus) (path : CString) (k : Nat) : Prop where
  slot : SlotFor b path k
  others : ∀ j, j ≠ k → b'.devices j = b.devices j
  controller : (b'.devices k).controller.isSome = true
  path : (b'.devices k).path = path

namespace Writes

variable {b' : Bus} {q : CString}

section
variable (h : Writes b b' path k)
include h

theorem lt : k < maxBusDevices := by
  rcases h.slot with hfind | ⟨-, hfree⟩
  · exact (findDeviceByPath_some hfind).1
  · exact Finset.mem_range.1 (Finset.mem_filter.1 hfree).1

theorem find_self : findDeviceByPath b' path = some k := by
  have hbefore : ∀ j < k, ¬ ((b.devices j).controller.isSome = true ∧ (b.devices j).path = path) := by
    intro j hj
    rcases h.slot with hfind | ⟨hnone, -⟩
    · have hlt := (List.find?_range_eq_some.1 hfind).2.2 j hj
      exact of_decide_eq_false (by simpa only [Bool.not_eq_true'] using hlt)
    · have hall := List.find?_eq_none.1 hnone j (List.mem_range.2 (lt_trans hj h.lt))
      exact fun hboth => hall (decide_eq_true hboth)
  refine List.find?_range_eq_some.2 ⟨by simp [h.controller, h.path], List.mem_range.2 h.lt, ?_⟩
  intro j hj
  rw [h.others j hj.ne, decide_eq_false (hbefore j hj)]
  rfl

theorem find_other (hq : q ≠ path) : findDeviceByPath b' q = findDeviceByPath b q := by
  rw [findDeviceByPath, findDeviceByPath]
  congr 1
  funext j
  by_cases hj : j = k
  · subst hj
    have hnew : ¬ ((b'.devices j).controller.isSome = true ∧ (b'.devices j).path = q) :=
      fun hboth => hq (hboth.2.symm.trans h.path)
    have hold : ¬ ((b.devices j).controller.isSome = true ∧ (b.devices j).path = q) := by
      rintro ⟨hsome, hpath⟩
      rcases h.slot with hfind | ⟨-, hfree⟩
      · exact hq (hpath.symm.trans (findDeviceByPath_some hfind).2.2)
      · rw [(Finset.mem_filter.1 hfree).2] at hsome
        cases hsome
    rw [decide_eq_false hnew, decide_eq_false hold]
  · rw [h.others j hj]

theorem recorded : Recorded b' q ↔ Recorded b q ∨ q = path := by
  by_cases hq : q = path
  · subst hq
    rw [Recorded, h.find_self]
    simp
  · rw [Recorded, Recorded, h.find_other hq]
    simp [hq]

theorem boundAt : BoundAt b' q ↔ if q = path then (b'.devices k).bound = true else BoundAt b q := by
  by_cases hq : q = path
  · subst hq
    rw [if_pos rfl, BoundAt, h.find_self]
    simp
  · rw [if_neg hq, BoundAt, BoundAt, h.find_other hq]
    cases hfind : findDeviceByPath b q with
    | none => rfl
    | some j =>
      have hj : j ≠ k := by
        rintro rfl
        rcases h.slot with hslot | ⟨-, hfree⟩
        · exact hq ((findDeviceByPath_some hfind).2.2.symm.trans (findDeviceByPath_some hslot).2.2)
        · have hsome := (findDeviceByPath_some hfind).2.1
          rw [(Finset.mem_filter.1 hfree).2] at hsome
          cases hsome
      simp only [Option.any_some, h.others j hj]

theorem free_of_recorded (hrecorded : Recorded b path) : freeDevices b' = freeDevices b := by
  refine Finset.filter_congr fun j _ => ?_
  by_cases hj : j = k
  · subst hj
    rcases h.slot with hfind | ⟨hnone, -⟩
    · have hold := (findDeviceByPath_some hfind).2.1
      have hnew := h.controller
      exact iff_of_false (fun hn => by rw [hn] at hnew; cases hnew)
        fun hn => by rw [hn] at hold; cases hold
    · rw [Recorded, hnone] at hrecorded
      cases hrecorded
  · rw [h.others j hj]

theorem free_of_new (hnew : ¬ Recorded b path) :
    freeDevices b' = (freeDevices b).erase k ∧ k ∈ freeDevices b := by
  have hfree : k ∈ freeDevices b := by
    rcases h.slot with hfind | ⟨-, hfree⟩
    · exact absurd (by rw [Recorded, hfind]; rfl) hnew
    · exact hfree
  refine ⟨?_, hfree⟩
  ext j
  rw [Finset.mem_erase, freeDevices, Finset.mem_filter, freeDevices, Finset.mem_filter]
  by_cases hj : j = k
  · subst hj
    have hsome := h.controller
    exact iff_of_false (fun hmem => by rw [hmem.2] at hsome; cases hsome) fun hmem => hmem.1 rfl
  · rw [h.others j hj]
    exact (and_iff_right hj).symm

end

end Writes

/-! ## Rounds -/

theorem probeDevice_spec (b : Bus) (k : Nat) (answer : Status) :
    let found := (findDriverByCompatible b (b.devices k).compatible).isSome
    ((probeDevice b k answer).1 = .ok ↔ (found = true → answer = .ok)) ∧
      ((probeDevice b k answer).1 = .ok →
        ((probeDevice b k answer).2.devices k).bound = found) ∧
      (∀ j, j ≠ k → (probeDevice b k answer).2.devices j = b.devices j) ∧
      ((probeDevice b k answer).2.devices k).controller = (b.devices k).controller ∧
      ((probeDevice b k answer).2.devices k).path = (b.devices k).path ∧
      (probeDevice b k answer).2.controllers = b.controllers ∧
      (probeDevice b k answer).2.drivers = b.drivers := by
  unfold probeDevice
  dsimp only
  cases findDriverByCompatible b (b.devices k).compatible with
  | none =>
    refine ⟨by simp, fun _ => by simp, fun j hj => ?_, by simp, by simp, rfl, rfl⟩
    rw [Bus.setDevice_devices, if_neg hj]
  | some d =>
    dsimp only
    by_cases hanswer : answer = .ok
    · rw [if_neg (not_not.2 hanswer)]
      refine ⟨by simp [hanswer], fun _ => by simp, fun j hj => ?_, by simp, by simp, rfl, rfl⟩
      simp [hj]
    · rw [if_pos hanswer]
      refine ⟨by simp [hanswer], fun h => absurd h hanswer, fun j hj => ?_, by simp, by simp, rfl,
        rfl⟩
      simp [hj]

theorem bindNode_none (h : wanted kind s i = none) (answer : Status) :
    bindNode kind s i answer = (.ok, s) := by
  obtain ⟨-, hnode⟩ | ⟨_, _, _, _, hunder, hunit, hfind, hcompatible, -⟩ :=
    bindNode_cases kind s i answer
  · exact hnode
  · simp [wanted, hunder, hunit, hfind, hcompatible] at h

/-- A round for a node that asks for a device. -/
theorem bindNode_some {compatible : CString} (h : wanted kind s i = some compatible)
    (answer : Status) :
    ∃ busId unit c, bindNode kind s i answer =
      match deviceSlot (s.bus kind) (s.tree.node i).path with
      | none => (.noMemory, s)
      | some (k, b) =>
        if (b.devices k).bound then
          (.ok, { s.setBus kind b with tree := setBound s.tree i true })
        else describeDevice kind s b k i busId unit c compatible answer := by
  obtain ⟨hnone, -⟩ | ⟨busId, unit, c, compatible', hunder, hunit, hfind, hcompatible, hnode⟩ :=
    bindNode_cases kind s i answer
  · unfold wanted at h
    split at h
    · next busId unit hunder hunit =>
      split_ifs at h with hfind
      obtain ⟨c, hc⟩ := Option.isSome_iff_exists.1 hfind
      exact absurd ⟨hunder, hunit, hc, h⟩ (hnone busId unit c compatible)
    · cases h
  · obtain rfl : compatible' = compatible := by
      simpa [wanted, hunder, hunit, hfind, hcompatible] using h
    exact ⟨busId, unit, c, hnode⟩

theorem describeDevice_spec (hk : SlotFor (s.bus kind) (s.tree.node i).path k)
    (hfits : (s.tree.node i).path.length < treeMaxPath)
    (hcontrollers : b.controllers = (s.bus kind).controllers)
    (hdrivers : b.drivers = (s.bus kind).drivers)
    (hothers : ∀ j, j ≠ k → b.devices j = (s.bus kind).devices j) (busId unit c : Nat)
    (compatible : CString) (answer : Status) :
    let result := describeDevice kind s b k i busId unit c compatible answer
    let found := (findDriverByCompatible (s.bus kind) (copyString compatibleMax compatible)).isSome
    (result.1 = .ok ↔ (found = true → answer = .ok)) ∧
      (result.1 = .ok → SameBus kind s result.2 ∧
        Writes (s.bus kind) (result.2.bus kind) (s.tree.node i).path k ∧
        ((result.2.bus kind).devices k).bound = found) := by
  intro result found
  have hresult : result = describeDevice kind s b k i busId unit c compatible answer := rfl
  unfold describeDevice at hresult
  dsimp only at hresult
  set device := described kind s.tree i busId unit compatible c (b.controllers c)
    (resolveIrqResources s.tree s.domains i irqMaxResources).1 (b.devices k) with hdevice
  obtain ⟨hok, hbound, hrest, hcontroller, hpath, hcs, hds⟩ :=
    probeDevice_spec (b.setDevice k device) k answer
  have hfound : (findDriverByCompatible (b.setDevice k device)
      ((b.setDevice k device).devices k).compatible).isSome = found := by
    rw [Bus.setDevice_devices, if_pos rfl, findDriverByCompatible, Bus.setDevice_drivers, hdrivers]
    rfl
  rw [hfound] at hok hbound
  by_cases hstatus : (probeDevice (b.setDevice k device) k answer).1 = .ok
  · rw [if_neg (not_not.2 hstatus)] at hresult
    have hbus : result.2.bus kind = (probeDevice (b.setDevice k device) k answer).2 := by
      rw [hresult]
      exact Function.update_self ..
    refine ⟨by rw [hresult]; exact iff_of_true rfl (hok.1 hstatus), fun _ => ⟨⟨?_, ?_, ?_⟩, ?_, ?_⟩⟩
    · rw [hresult]
      exact unboundTree_setBound ..
    · rw [hbus, hcs, Bus.setDevice_controllers, hcontrollers]
    · rw [hbus, hds, Bus.setDevice_drivers, hdrivers]
    · refine ⟨hk, fun j hj => ?_, ?_, ?_⟩
      · rw [hbus, hrest j hj, Bus.setDevice_devices, if_neg hj, hothers j hj]
      · rw [hbus, hcontroller, Bus.setDevice_devices, if_pos rfl]
        rfl
      · rw [hbus, hpath, Bus.setDevice_devices, if_pos rfl]
        exact copyString_of_lt hfits
    · rw [hbus, hbound hstatus]
  · rw [if_pos hstatus] at hresult
    have hfail : result.1 ≠ .ok := by
      rw [hresult]
      exact hstatus
    exact ⟨iff_of_false hfail fun h => hstatus (hok.2 h), fun h => absurd h hfail⟩

/-- A round for a node that asks for a device fails when there is no record for it, or when the
driver of a device that is not bound does. -/
theorem bindNode_spec (h : (wanted kind s i).isSome = true)
    (hfits : (s.tree.node i).path.length < treeMaxPath) (answer : Status) :
    let path := (s.tree.node i).path
    let result := bindNode kind s i answer
    (result.1 = .ok ↔ (Recorded (s.bus kind) path ∨ (freeDevices (s.bus kind)).Nonempty) ∧
      (BoundAt (s.bus kind) path ∨ (HasDriver kind s i → answer = .ok))) ∧
      (result.1 = .ok → SameBus kind s result.2 ∧
        ∃ k, Writes (s.bus kind) (result.2.bus kind) path k ∧
          (((result.2.bus kind).devices k).bound = true ↔
            BoundAt (s.bus kind) path ∨ HasDriver kind s i)) := by
  intro path result
  obtain ⟨compatible, hcompatible⟩ := Option.isSome_iff_exists.1 h
  obtain ⟨busId, unit, c, hround⟩ := bindNode_some hcompatible answer
  have hdriver : HasDriver kind s i ↔ (findDriverByCompatible (s.bus kind)
      (copyString compatibleMax compatible)).isSome = true := by
    rw [HasDriver, hcompatible]
    rfl
  have hresult : result = _ := hround
  cases hslot : deviceSlot (s.bus kind) (s.tree.node i).path with
  | none =>
    obtain ⟨hnew, hempty⟩ := deviceSlot_none hslot
    rw [hslot] at hresult
    have hfail : result.1 ≠ .ok := by
      rw [hresult]
      simp
    refine ⟨iff_of_false hfail ?_, fun hok => absurd hok hfail⟩
    rintro ⟨hrecorded | hfree, -⟩
    · exact hnew hrecorded
    · rw [hempty] at hfree
      exact Finset.not_nonempty_empty hfree
  | some slot =>
    obtain ⟨k, b⟩ := slot
    obtain ⟨hk, hcontrollers, hdrivers, hothers, hbound⟩ := deviceSlot_slotFor hslot
    have hroom : Recorded (s.bus kind) path ∨ (freeDevices (s.bus kind)).Nonempty := by
      rcases hk with hfind | ⟨-, hfree⟩
      · exact .inl (by rw [Recorded, hfind]; rfl)
      · exact .inr ⟨k, hfree⟩
    rw [hslot] at hresult
    dsimp only at hresult
    by_cases hb : (b.devices k).bound = true
    · rw [if_pos hb] at hresult
      have hat := hbound.1 hb
      have hbus : result.2.bus kind = b := by
        rw [hresult]
        exact Function.update_self ..
      -- A device that is bound has a record, which stays.
      obtain ⟨j, hj⟩ : ∃ j, findDeviceByPath (s.bus kind) path = some j := by
        cases hfind : findDeviceByPath (s.bus kind) path with
        | none =>
          rw [BoundAt, hfind] at hat
          cases hat
        | some j => exact ⟨j, rfl⟩
      have hsame : b = s.bus kind ∧ k = j := by
        unfold deviceSlot at hslot
        rw [show findDeviceByPath (s.bus kind) (s.tree.node i).path = some j from hj] at hslot
        exact ⟨(Prod.mk.inj (Option.some.inj hslot)).2.symm,
          (Prod.mk.inj (Option.some.inj hslot)).1.symm⟩
      obtain ⟨-, hsome, hpath⟩ := findDeviceByPath_some hj
      refine ⟨by rw [hresult]; exact iff_of_true rfl ⟨hroom, .inl hat⟩, fun _ => ⟨⟨?_, ?_, ?_⟩, k,
        ⟨hk, ?_, ?_, ?_⟩, ?_⟩⟩
      · rw [hresult]
        exact unboundTree_setBound ..
      · rw [hbus, hcontrollers]
      · rw [hbus, hdrivers]
      · rw [hbus]
        exact hothers
      · rw [hbus, hsame.1, hsame.2]
        exact hsome
      · rw [hbus, hsame.1, hsame.2]
        exact hpath
      · rw [hbus]
        exact iff_of_true hb (.inl hat)
    · rw [if_neg hb] at hresult
      obtain ⟨hok, hwrites⟩ := describeDevice_spec hk hfits hcontrollers hdrivers hothers busId unit c
        compatible answer
      rw [← hresult, ← hdriver] at hok
      rw [← hresult] at hwrites
      have hnot : ¬ BoundAt (s.bus kind) path := fun hat => hb (hbound.2 hat)
      refine ⟨hok.trans ⟨fun hprobe => ⟨hroom, .inr hprobe⟩, fun hboth =>
        hboth.2.resolve_left hnot⟩, fun hstatus => ?_⟩
      obtain ⟨hsame, hwrite, hfound⟩ := hwrites hstatus
      refine ⟨hsame, k, hwrite, ?_⟩
      rw [hfound, hdriver]
      exact ⟨.inr, fun hor => hor.resolve_left hnot⟩

/-! ## The pass -/

theorem newPaths_skip (h : ¬ ((wanted kind s i).isSome = true ∧
    ¬ Recorded (s.bus kind) (s.tree.node i).path)) :
    newPaths kind s (i :: nodes) = newPaths kind s nodes := by
  rw [newPaths, filter_cons, if_neg (by simpa using h), newPaths]

theorem newPaths_cons (hwanted : (wanted kind s i).isSome = true)
    (hnew : ¬ Recorded (s.bus kind) (s.tree.node i).path) :
    newPaths kind s (i :: nodes) = insert (s.tree.node i).path (newPaths kind s nodes) := by
  rw [newPaths, filter_cons, if_pos (by simpa using ⟨hwanted, hnew⟩), newPaths, map_cons,
    toFinset_cons]

theorem mem_newPaths :
    path ∈ newPaths kind s nodes ↔ ∃ i ∈ nodes, (wanted kind s i).isSome = true ∧
      ¬ Recorded (s.bus kind) (s.tree.node i).path ∧ (s.tree.node i).path = path := by
  simp only [newPaths, mem_toFinset, mem_map, mem_filter, decide_eq_true_eq, and_assoc]

/-- After a round the paths of new devices are the ones of before but for the path of the round. -/
theorem newPaths_erase (hsame : SameBus kind s s')
    (hrecorded : ∀ q, Recorded (s'.bus kind) q ↔ Recorded (s.bus kind) q ∨ q = path)
    (nodes : List Nat) : newPaths kind s' nodes = (newPaths kind s nodes).erase path := by
  ext q
  rw [Finset.mem_erase, mem_newPaths, mem_newPaths]
  simp only [hsame.wanted, hsame.nodePath, hrecorded]
  constructor
  · rintro ⟨i, hi, hwanted, hnew, rfl⟩
    push Not at hnew
    exact ⟨hnew.2, i, hi, hwanted, hnew.1, rfl⟩
  · rintro ⟨hne, i, hi, hwanted, hnew, rfl⟩
    exact ⟨i, hi, hwanted, by simp [hnew, hne], rfl⟩

theorem hasRoom_cons (hwanted : (wanted kind s i).isSome = true) (hsame : SameBus kind s s')
    (hwrites : Writes (s.bus kind) (s'.bus kind) (s.tree.node i).path k) :
    HasRoom kind s (i :: nodes) ↔ HasRoom kind s' nodes := by
  have herase := newPaths_erase hsame (fun q => hwrites.recorded) nodes
  rw [HasRoom, HasRoom, herase]
  by_cases hnew : Recorded (s.bus kind) (s.tree.node i).path
  · rw [newPaths_skip fun h => h.2 hnew, hwrites.free_of_recorded hnew, Finset.erase_eq_of_notMem]
    intro hmem
    obtain ⟨j, -, -, hj, hpath⟩ := mem_newPaths.1 hmem
    exact hj (hpath ▸ hnew)
  · obtain ⟨hfree, hk⟩ := hwrites.free_of_new hnew
    have hpos : 0 < (freeDevices (s.bus kind)).card := Finset.card_pos.2 ⟨k, hk⟩
    rw [newPaths_cons hwanted hnew, hfree, Finset.card_erase_of_mem hk]
    by_cases hmem : (s.tree.node i).path ∈ newPaths kind s nodes
    · rw [Finset.insert_eq_of_mem hmem, Finset.card_erase_of_mem hmem]
      omega
    · rw [Finset.card_insert_of_notMem hmem, Finset.erase_eq_of_notMem hmem]
      omega

theorem probesSucceed_skip (h : ¬ HasDriver kind s i) :
    ProbesSucceed kind s answers (i :: nodes) ↔ ProbesSucceed kind s answers nodes := by
  constructor
  · rintro hall before j after rfl hdriver
    rcases hall (i :: before) j after rfl hdriver with hbound | ⟨l, hl, hboth⟩ | hanswer
    · exact .inl hbound
    · rcases List.mem_cons.1 hl with rfl | hl
      · exact absurd hboth.1 h
      · exact .inr (.inl ⟨l, hl, hboth⟩)
    · exact .inr (.inr hanswer)
  · intro hall before j after heq hdriver
    cases before with
    | nil =>
      rw [nil_append, List.cons.injEq] at heq
      exact absurd (heq.1 ▸ hdriver) h
    | cons l before =>
      rw [cons_append, List.cons.injEq] at heq
      rcases hall before j after heq.2 hdriver with hbound | ⟨m, hm, hboth⟩ | hanswer
      · exact .inl hbound
      · exact .inr (.inl ⟨m, mem_cons_of_mem l hm, hboth⟩)
      · exact .inr (.inr hanswer)

theorem probesSucceed_cons (hsame : SameBus kind s s')
    (hwrites : Writes (s.bus kind) (s'.bus kind) (s.tree.node i).path k)
    (hbound : ((s'.bus kind).devices k).bound = true ↔
      BoundAt (s.bus kind) (s.tree.node i).path ∨ HasDriver kind s i)
    (hprobe : BoundAt (s.bus kind) (s.tree.node i).path ∨ (HasDriver kind s i → answers i = .ok)) :
    ProbesSucceed kind s answers (i :: nodes) ↔ ProbesSucceed kind s' answers nodes := by
  have hat : ∀ q, BoundAt (s'.bus kind) q ↔ BoundAt (s.bus kind) q ∨
      (q = (s.tree.node i).path ∧ HasDriver kind s i) := by
    intro q
    rw [hwrites.boundAt, hbound]
    by_cases hq : q = (s.tree.node i).path
    · simp [hq]
    · simp [hq]
  simp only [ProbesSucceed, hsame.hasDriver, hsame.nodePath, hat]
  constructor
  · rintro hall before j after rfl hdriver
    rcases hall (i :: before) j after rfl hdriver with hold | ⟨l, hl, hboth⟩ | hanswer
    · exact .inl (.inl hold)
    · rcases List.mem_cons.1 hl with rfl | hl
      · exact .inl (.inr ⟨hboth.2.symm, hboth.1⟩)
      · exact .inr (.inl ⟨l, hl, hboth⟩)
    · exact .inr (.inr hanswer)
  · intro hall before j after heq hdriver
    cases before with
    | nil =>
      rw [nil_append, List.cons.injEq] at heq
      obtain rfl := heq.1
      rcases hprobe with hold | hanswer
      · exact .inl hold
      · exact .inr (.inr (hanswer hdriver))
    | cons l before =>
      rw [cons_append, List.cons.injEq] at heq
      obtain rfl := heq.1
      rcases hall before j after heq.2 hdriver with (hold | hnow) | ⟨m, hm, hboth⟩ | hanswer
      · exact .inl hold
      · exact .inr (.inl ⟨_, mem_cons_self, hnow.2, hnow.1.symm⟩)
      · exact .inr (.inl ⟨m, mem_cons_of_mem _ hm, hboth⟩)
      · exact .inr (.inr hanswer)

/-- The rounds still to come succeed when their devices find records and their probes succeed. -/
theorem bindNodes_ok_iff (hfits : ∀ i ∈ nodes, (s.tree.node i).path.length < treeMaxPath) :
    (bindNodes kind answers nodes s).1 = .ok ↔
      HasRoom kind s nodes ∧ ProbesSucceed kind s answers nodes := by
  induction nodes generalizing s with
  | nil =>
    refine iff_of_true rfl ⟨by simp [HasRoom, newPaths], fun before i after h => ?_⟩
    cases before <;> cases h
  | cons i nodes ih =>
    have hrest : ∀ j ∈ nodes, (s.tree.node j).path.length < treeMaxPath := fun j hj =>
      hfits j (mem_cons_of_mem i hj)
    cases hwanted : wanted kind s i with
    | none =>
      have hdriver : ¬ HasDriver kind s i := by
        rw [HasDriver, hwanted]
        simp
      rw [bindNodes, bindNode_none hwanted, probesSucceed_skip hdriver, HasRoom,
        newPaths_skip fun h => (by rw [hwanted] at h; cases h.1)]
      exact ih hrest
    | some compatible =>
      have hsome : (wanted kind s i).isSome = true := by rw [hwanted]; rfl
      obtain ⟨hok, hwrites⟩ := bindNode_spec hsome (hfits i mem_cons_self) (answers i)
      rw [bindNodes]
      cases hround : bindNode kind s i (answers i) with
      | mk status s' =>
        rw [hround] at hok hwrites
        by_cases hstatus : status = .ok
        · subst hstatus
          obtain ⟨hsame, k, hwrite, hbound⟩ := hwrites rfl
          rw [hasRoom_cons hsome hsame hwrite, probesSucceed_cons hsame hwrite hbound (hok.1 rfl).2]
          exact ih fun j hj => by rw [hsame.nodePath]; exact hrest j hj
        · refine iff_of_false ?_ fun h => hstatus (hok.2 ⟨?_, ?_⟩)
          · cases status with
            | ok => exact absurd rfl hstatus
            | _ => simp
          · by_contra hnone
            push Not at hnone
            have hpos : 0 < (newPaths kind s (i :: nodes)).card :=
              Finset.card_pos.2 ⟨_, mem_newPaths.2 ⟨i, mem_cons_self, hsome, hnone.1, rfl⟩⟩
            have hroom := h.1
            rw [HasRoom, hnone.2, Finset.card_empty] at hroom
            omega
          · by_contra hnot
            push Not at hnot
            rcases h.2 [] i nodes rfl hnot.2.1 with hbound | ⟨j, hj, -⟩ | hanswer
            · exact hnot.1 hbound
            · cases hj
            · exact hnot.2.2 hanswer

/-- A pass over the tree succeeds when there are records for all new devices and the probes do. -/
theorem bindBusTree_ok_iff (hfits : ∀ i < s.tree.nodes.length,
    (s.tree.node i).path.length < treeMaxPath) :
    (bindBusTree kind s answers).1 = .ok ↔
      HasRoom kind s (List.range s.tree.nodes.length) ∧
        ProbesSucceed kind s answers (List.range s.tree.nodes.length) :=
  bindNodes_ok_iff fun i hi => hfits i (List.mem_range.1 hi)

end RadKernel.Overlay
