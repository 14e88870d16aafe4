import RadKernel.Lib.Run
import RadKernel.Overlay.View

/-!
# Loading an overlay

An overlay says something when each record of it can be read. `rad_overlay_load_memory` applies the
records one by one: it succeeds when the overlay says something and the tables have room for it, and
otherwise stops at the first record that fails, with all records before it applied.
-/

namespace RadKernel.Overlay

open Words List Option

variable {b : Blob} {t : TreeState}

/-! ## What an overlay says -/

def Blob.property (b : Blob) (record : OverlayPropertyRecord) : Option TreeProperty := do
  let name ← b.stringAt record.nameOffset
  let value ← b.propertyValue record
  return ⟨name, value⟩

/-- The properties from record `k` on. -/
def Blob.properties (b : Blob) : Nat → Nat → Option (List TreeProperty)
  | 0, _ => some []
  | count + 1, k => do
    let record ← b.props[k]?
    let p ← b.property record
    let ps ← b.properties count ((k + 1) % 2 ^ 32)
    return p :: ps

def Blob.node (b : Blob) (record : OverlayNodeRecord) : Option NodeView := do
  let path ← b.stringAt record.pathOffset
  let _ ← b.stringAt record.nameOffset
  let _ ← b.stringAt record.parentOffset
  let ps ← b.properties record.propertyCount record.propertyStart
  return (path, ps)

/-- What an overlay says. -/
def Blob.contents (b : Blob) : Option (List NodeView) := b.nodes.mapM b.node

/-! ## A record is applied -/

/-- The step succeeds when there is something to merge and room for it, and then has merged it. -/
structure Loads (v? : Option (List NodeView)) (r : Status × TreeState) : Prop where
  ok_iff : r.1 = .ok ↔ ∃ v, v? = some v ∧ Fits v
  view : r.1 = .ok → ∀ v, v? = some v → r.2.view = v
  sound : r.2.Sound

theorem Loads.refused {v? : Option (List NodeView)} {status : Status} (hstatus : status ≠ .ok)
    (hv : ∀ v, v? = some v → ¬Fits v) (ht : t.Sound) : Loads v? (status, t) where
  ok_iff := iff_of_false hstatus fun ⟨v, hv', hfits⟩ => hv v hv' hfits
  view h := absurd h hstatus
  sound := ht

theorem Loads.done (ht : t.Sound) : Loads (some t.view) (.ok, t) where
  ok_iff := iff_of_true rfl ⟨_, rfl, ht.fits⟩
  view _ _ hv := Option.some.inj hv
  sound := ht

/-- A second step after the first; what it merges it merges into the view that the first leaves. -/
theorem Loads.seq {v? : Option (List NodeView)} {r : Status × TreeState}
    (h : Loads v? r) (next? : List NodeView → Option (List NodeView))
    (next : TreeState → Status × TreeState) (hnext : r.1 = .ok → Loads (next? r.2.view) (next r.2))
    (hfits : ∀ v w, next? v = some w → Fits w → Fits v) :
    Loads (v?.bind next?) (andThen r next) := by
  unfold andThen
  by_cases hok : r.1 = .ok
  · obtain ⟨v, hv, -⟩ := h.ok_iff.1 hok
    rw [if_pos hok, hv, bind_some, ← h.view hok v hv]
    exact hnext hok
  · rw [if_neg hok]
    refine .refused hok (fun w hw hw' => hok (h.ok_iff.2 ?_)) h.sound
    obtain ⟨v, hv, hvw⟩ := Option.bind_eq_some_iff.1 hw
    exact ⟨v, hv, hfits v w hvw hw'⟩

variable {i : Nat} {t' : TreeState} {parent : CString}

theorem total_lt_storeAt {v : List NodeView} {p : TreeProperty} (hi : i < v.length)
    (hnew : ∀ q ∈ (v[i]).2, q.name ≠ p.name) : total v < total (storeAt v i [p]) := by
  induction v generalizing i with
  | nil => simp at hi
  | cons n v ih =>
    cases i with
    | zero =>
      have hstore := congrArg List.length (store_of_new hnew)
      simp only [getElem_cons_zero, length_append, length_singleton] at hstore
      simp only [total, storeAt, modify_zero_cons, map_cons, sum_cons, storeAll,
        foldl_cons, foldl_nil, hstore]
      omega
    | succ i =>
      have hrest := ih (by simpa using hi) hnew
      simp only [total, storeAt, modify_succ_cons, map_cons, sum_cons] at hrest ⊢
      omega

theorem setValue_appendProperty (i : Nat) (p : TreeProperty) (v : PropertyValue) :
    setValue (appendProperty t i p) t.props.length v = appendProperty t i { p with value := v } := by
  simp [setValue, appendProperty, TreeState.prop, getD_eq_getElem?_getD, setNode]

variable {name path : CString}

section
variable (ht : t.Sound) (hi : i < t.nodes.length)
include ht hi

theorem allocateProperty_of_none (h : allocateProperty t i name = (none, t')) :
    t' = t ∧ ∀ v, ¬Fits (storeAt t.view i [⟨name, v⟩]) := by
  unfold allocateProperty at h
  cases hk : findProperty t i name with
  | some k => simp [hk] at h
  | none =>
    rw [hk] at h
    have hview : i < t.view.length := by simpa using hi
    have hnew : ∀ q ∈ t.view[i].2, q.name ≠ name := by
      rw [findProperty_eq ht hi, List.find?_eq_none] at hk
      rw [view_getElem hi]
      intro q hq
      obtain ⟨k, hmem, rfl⟩ := List.mem_map.1 hq
      simpa using hk k hmem
    dsimp only at h
    split_ifs at h with hnode hprops
    · refine ⟨(Prod.mk.inj h).2.symm, fun v hfits => ?_⟩
      have hi' : i < (storeAt t.view i [⟨name, v⟩]).length := by simpa using hi
      have hle := hfits.properties_le _ (getElem_mem hi')
      have hstore := congrArg List.length (store_of_new (p := ⟨name, v⟩) hnew)
      simp only [storeAt, getElem_modify_eq, storeAll, foldl_cons, foldl_nil] at hle
      rw [hstore, view_getElem hi] at hle
      simp only [length_append, length_map, length_singleton] at hle
      omega
    · refine ⟨(Prod.mk.inj h).2.symm, fun v hfits => ?_⟩
      have hlt := total_lt_storeAt (p := ⟨name, v⟩) (by simpa using hi) hnew
      have hle := hfits.total_le
      rw [ht.total_view] at hlt
      omega
    · cases (Prod.mk.inj h).1

theorem allocateProperty_of_some {k : Nat}
    (h : allocateProperty t i name = (some k, t')) (v : PropertyValue) :
    (setValue t' k v).Sound ∧ (setValue t' k v).view = storeAt t.view i [⟨name, v⟩] ∧
      t'.nodes.length = t.nodes.length ∧ t'.overlays = t.overlays := by
  unfold allocateProperty at h
  cases hk : findProperty t i name with
  | some j =>
    rw [hk] at h
    cases h
    exact ⟨ht.setValue k v, view_setValue ht hi hk v, rfl, rfl⟩
  | none =>
    rw [hk] at h
    dsimp only at h
    split_ifs at h with hnode hprops
    · cases (Prod.mk.inj h).1
    · cases (Prod.mk.inj h).1
    · cases h
      have hadd := setValue_appendProperty (t := t) i { name := copyString treeMaxPropertyName name } v
      refine ⟨?_, ?_, length_set .., rfl⟩
      · exact hadd ▸ ht.appendProperty hi _ (Nat.lt_of_not_le hprops) (Nat.lt_of_not_le hnode)
      · exact hadd ▸ view_appendProperty ht hi hk v

theorem applyProperty_loads (record : OverlayPropertyRecord) :
    Loads ((b.property record).map fun p => storeAt t.view i [p]) (applyProperty b t i record) := by
  unfold applyProperty Blob.property
  cases hname : b.stringAt record.nameOffset with
  | none => exact .refused (by decide) (by simp) ht
  | some name =>
    dsimp only
    cases halloc : allocateProperty t i name with
    | mk k? t' =>
      cases k? with
      | none =>
        obtain ⟨rfl, hfull⟩ := allocateProperty_of_none ht hi halloc
        refine .refused (by decide) ?_ ht
        cases hvalue : b.propertyValue record with
        | none => simp
        | some value => simpa using hfull value
      | some k =>
        cases hvalue : b.propertyValue record with
        | none =>
          exact .refused (by decide) (by simp) (allocateProperty_of_some ht hi halloc _).1
        | some value =>
          obtain ⟨hsound, hview, hlength, -⟩ := allocateProperty_of_some ht hi halloc value
          have hi' : i < (setValue t' k value).nodes.length := by
            rw [show (setValue t' k value).nodes.length = t'.nodes.length from rfl, hlength]
            exact hi
          simp only [bind_eq_bind, bind_some, Option.pure_def, map_some]
          rw [← hview]
          split_ifs
          · have hsame : (setModule (setValue t' k value) i ((b.stringAt record.value).getD [])).view =
                (setValue t' k value).view := view_setNode hi' rfl rfl
            rw [← hsame]
            exact .done (hsound.setNode hi' rfl)
          · exact .done hsound

end

/-! ## The loops -/

@[simp] theorem view_setOverlay (o : Nat) (f : OverlayRecord → OverlayRecord) :
    (setOverlay t o f).view = t.view := rfl

theorem TreeState.Sound.setOverlay (ht : t.Sound) (o : Nat) (f : OverlayRecord → OverlayRecord) :
    (setOverlay t o f).Sound :=
  ⟨ht.indices, ht.nodes_le, ht.props_le, ht.properties_le⟩

theorem nameOverlay_eq (t : TreeState) (o i : Nat) (path : CString)
    (record : OverlayPropertyRecord) : ∃ f, nameOverlay b t o i path record = setOverlay t o f := by
  have hid : t = setOverlay t o id := by
    unfold setOverlay
    rw [show t.overlays.modify o id = t.overlays from modify_id ..]
  unfold nameOverlay
  split
  · split
    · exact ⟨id, hid⟩
    · exact ⟨_, rfl⟩
  · exact ⟨id, hid⟩

theorem loadProperties_loads (ht : t.Sound) {o : Nat} (hi : i < t.nodes.length) (path : CString)
    (count k : Nat) :
    Loads ((b.properties count k).map (storeAt t.view i)) (loadProperties b o i path count k t) := by
  induction count generalizing t k with
  | zero =>
    rw [Blob.properties, map_some, storeAt_nil]
    exact .done ht
  | succ count ih =>
    rw [loadProperties, Blob.properties]
    cases b.props[k]? with
    | none => exact .refused (by decide) (by simp) ht
    | some record =>
      have hfirst := applyProperty_loads (b := b) ht hi record
      have hseq := hfirst.seq (fun v =>
          (b.properties count ((k + 1) % 2 ^ 32)).map (storeAt v i))
        (fun t => loadProperties b o i path count ((k + 1) % 2 ^ 32)
          (nameOverlay b t o i path record)) ?_ ?_
      · convert hseq using 1
        simp only [bind_eq_bind, bind_some, Option.pure_def]
        cases b.property record with
        | none => rfl
        | some p =>
          cases b.properties count ((k + 1) % 2 ^ 32) with
          | none => rfl
          | some ps => exact congrArg some (storeAt_append t.view i [p] ps).symm
      · intro hok
        obtain ⟨f, hf⟩ := nameOverlay_eq (applyProperty b t i record).2 o i path record
        obtain ⟨v, hv, -⟩ := hfirst.ok_iff.1 hok
        obtain ⟨p, -, hp⟩ := Option.map_eq_some_iff.1 hv
        have hlength : i < (applyProperty b t i record).2.nodes.length := by
          rw [← length_view, hfirst.view hok v hv, ← hp, length_storeAt, length_view]
          exact hi
        rw [hf, ← view_setOverlay o f]
        exact ih (hfirst.sound.setOverlay o f) hlength _
      · intro v w hw hfits
        obtain ⟨ps, -, rfl⟩ := Option.map_eq_some_iff.1 hw
        exact (Below.storeAt v i ps).fits hfits

theorem storeAt_length (v : List NodeView) (n : NodeView) (qs : List TreeProperty) :
    storeAt (v ++ [n]) v.length qs = v ++ [(n.1, storeAll n.2 qs)] := by
  induction v with
  | nil => rfl
  | cons m v ih =>
    simpa [storeAt] using ih

theorem allocateNode_of_none (h : allocateNode t path name parent = (none, t')) :
    t' = t ∧ ∀ ps, ¬Fits (merge t.view (path, ps)) := by
  unfold allocateNode at h
  rw [findNode_eq] at h
  cases hfind : t.view.findIdx? fun n => n.1 = path with
  | some i => simp [hfind] at h
  | none =>
    rw [hfind] at h
    split_ifs at h with hfull
    · cases h
      refine ⟨rfl, fun ps hfits => ?_⟩
      have hle := hfits.nodes_le
      rw [merge, hfind] at hle
      simp only [length_append, length_view, length_singleton] at hle
      omega
    · cases (Prod.mk.inj h).1

theorem allocateNode_of_some (ht : t.Sound) (h : allocateNode t path name parent = (some i, t')) :
    t'.Sound ∧ i < t'.nodes.length ∧ ∀ ps, merge t.view (path, ps) = storeAt t'.view i ps := by
  unfold allocateNode at h
  rw [findNode_eq] at h
  cases hfind : t.view.findIdx? fun n => n.1 = path with
  | some j =>
    rw [hfind] at h
    cases h
    have hi : i < t.nodes.length := by
      rw [← length_view]
      exact (List.findIdx?_eq_some_iff_getElem.1 hfind).1
    refine ⟨ht.setNode hi rfl, by simpa [setNode] using hi, fun ps => ?_⟩
    have hsame : (setNode t i { t.node i with
        name := renamed treeMaxPropertyName (t.node i).name name
        parent := renamed treeMaxPath (t.node i).parent parent }).view = t.view :=
      view_setNode hi rfl rfl
    rw [hsame, merge, hfind]
  | none =>
    rw [hfind] at h
    split_ifs at h with hfull
    · cases (Prod.mk.inj h).1
    · cases h
      refine ⟨⟨?_, ?_, ht.props_le, ?_⟩, by simp, fun ps => ?_⟩
      · simpa using ht.indices
      · simp only [length_append, length_singleton]
        omega
      · intro node hnode
        rcases List.mem_append.1 hnode with hmem | hmem
        · exact ht.properties_le node hmem
        · rw [mem_singleton] at hmem
          subst hmem
          exact Nat.zero_le _
      · rw [view_appendNode, merge, hfind, ← length_view t, storeAt_length]

theorem loadNode_loads (ht : t.Sound) (o : Nat) (record : OverlayNodeRecord) :
    Loads ((b.node record).map (merge t.view)) (loadNode b o t record) := by
  unfold loadNode Blob.node
  cases hpath : b.stringAt record.pathOffset with
  | none => exact .refused (by decide) (by simp) ht
  | some path =>
    cases hname : b.stringAt record.nameOffset with
    | none => exact .refused (by decide) (by simp) ht
    | some name =>
      cases hparent : b.stringAt record.parentOffset with
      | none => exact .refused (by decide) (by simp) ht
      | some parent =>
        dsimp only
        cases halloc : allocateNode t path name parent with
        | mk i? t' =>
          cases i? with
          | none =>
            obtain ⟨rfl, hfull⟩ := allocateNode_of_none halloc
            refine .refused (by decide) (fun v hv => ?_) ht
            obtain ⟨n, hn, rfl⟩ := Option.map_eq_some_iff.1 hv
            simp only [bind_eq_bind, bind_some, Option.pure_def, bind_eq_some_iff, Option.some.injEq] at hn
            obtain ⟨ps, -, rfl⟩ := hn
            exact hfull ps
          | some i =>
            obtain ⟨hsound, hi, hmerge⟩ := allocateNode_of_some ht halloc
            have hloads := loadProperties_loads (b := b) hsound (o := o) hi path
              record.propertyCount record.propertyStart
            convert hloads using 1
            cases b.properties record.propertyCount record.propertyStart with
            | none => rfl
            | some ps => simp [hmerge]

theorem loadNodes_loads (ht : t.Sound) (o : Nat) (records : List OverlayNodeRecord) :
    Loads ((records.mapM b.node).map (mergeAll t.view)) (loadNodes b o records t) := by
  induction records generalizing t with
  | nil => exact .done ht
  | cons record rest ih =>
    have hfirst := loadNode_loads (b := b) ht o record
    have hseq := hfirst.seq (fun v => (rest.mapM b.node).map (mergeAll v))
      (loadNodes b o rest) (fun _ => ih hfirst.sound) ?_
    · rw [loadNodes]
      convert hseq using 1
      rw [mapM_cons]
      cases b.node record with
      | none => rfl
      | some n =>
        cases rest.mapM b.node with
        | none => rfl
        | some ns => rfl
    · intro v w hw hfits
      obtain ⟨ns, -, rfl⟩ := Option.map_eq_some_iff.1 hw
      exact Below.fits_mergeAll v ns hfits

/-- What `rad_overlay_load_memory` merges into a view. -/
def merged (t : TreeState) (bytes beyond : List UInt8) : Option (List NodeView) :=
  if maxOverlays ≤ t.overlays.length then none
  else (parseBlob bytes beyond).bind fun b => b.contents.map (mergeAll t.view)

theorem radOverlayLoadMemory_loads (ht : t.Sound) (bytes beyond : List UInt8) :
    Loads (merged t bytes beyond) (radOverlayLoadMemory t bytes beyond) := by
  unfold radOverlayLoadMemory merged
  cases parseBlob bytes beyond with
  | none => exact .refused (by decide) (by simp) ht
  | some b =>
    split_ifs with hfull
    · exact .refused (by decide) (by simp) ht
    · have ht' : TreeState.Sound { t with overlays := t.overlays ++ [newOverlay b] } :=
        ⟨ht.indices, ht.nodes_le, ht.props_le, ht.properties_le⟩
      exact loadNodes_loads ht' t.overlays.length b.nodes

/-! ## Trees that calls lead to -/

/-- The calls that change a tree; those on a node get one in use. -/
inductive TreeCall where
  | load (bytes beyond : List UInt8)
  | ensureNodePath (path : CString)
  | setProperty (node : Nat) (name : CString) (value : PropertyValue)
  | setModule (node : Nat) (module : CString)
  | setBound (node : Nat) (bound : Bool)

def TreeState.next (t : TreeState) : TreeCall → TreeState
  | .load bytes beyond => (radOverlayLoadMemory t bytes beyond).2
  | .ensureNodePath path => (Overlay.ensureNodePath t path).2
  | .setProperty node name value => Overlay.setProperty t node name value
  | .setModule node module => Overlay.setModule t node module
  | .setBound node bound => Overlay.setBound t node bound

def NodeInUse (t : TreeState) : TreeCall → Prop
  | .setProperty node _ _ | .setModule node _ | .setBound node _ => node < t.nodes.length
  | _ => True

/-- The trees that calls lead to from `rad_overlay_reset`. -/
def TreeState.Reached (t : TreeState) : Prop :=
  Run (Obeys TreeState.next NodeInUse) (fun t => t = radOverlayReset) t

theorem TreeState.Sound.reset : radOverlayReset.Sound where
  indices := by decide
  nodes_le := by decide
  props_le := by decide
  properties_le := by decide

theorem TreeState.Sound.allocateNode (ht : t.Sound) (path name parent : CString) :
    (allocateNode t path name parent).2.Sound := by
  cases halloc : Overlay.allocateNode t path name parent with
  | mk i? t' =>
    cases i? with
    | none =>
      obtain ⟨rfl, -⟩ := allocateNode_of_none halloc
      exact ht
    | some i => exact (allocateNode_of_some ht halloc).1

theorem TreeState.Sound.ensureNodes (ht : t.Sound) (rounds : Nat) (path : CString) :
    (ensureNodes rounds t path).2.Sound := by
  induction rounds generalizing path with
  | zero => exact ht
  | succ rounds ih =>
    rw [Overlay.ensureNodes]
    split_ifs
    · exact ht
    · cases findNode t path with
      | some i => exact ht
      | none =>
        dsimp only
        split_ifs
        · have hparent := ih (pathParentName path).1
          cases hrec : Overlay.ensureNodes rounds t (pathParentName path).1 with
          | mk i? t' =>
            rw [hrec] at hparent
            cases i? with
            | none => exact hparent
            | some i => exact hparent.allocateNode ..
        · exact ht.allocateNode ..

theorem TreeState.Sound.setProperty (ht : t.Sound) (hi : i < t.nodes.length)
    (name : CString) (value : PropertyValue) : (setProperty t i name value).Sound := by
  unfold Overlay.setProperty
  cases halloc : allocateProperty t i name with
  | mk k? t' =>
    cases k? with
    | none =>
      obtain ⟨rfl, -⟩ := allocateProperty_of_none ht hi halloc
      exact ht
    | some k => exact (allocateProperty_of_some ht hi halloc value).1

theorem TreeState.Sound.next (ht : t.Sound) {call : TreeCall} (hcall : NodeInUse t call) :
    (t.next call).Sound := by
  cases call with
  | load bytes beyond => exact (radOverlayLoadMemory_loads ht bytes beyond).sound
  | ensureNodePath path => exact ht.ensureNodes _ path
  | setProperty node name value => exact ht.setProperty hcall name value
  | setModule node module => exact ht.setNode hcall rfl
  | setBound node bound => exact ht.setNode hcall rfl

theorem TreeState.Reached.sound (ht : t.Reached) : t.Sound := by
  refine ht.invariant ?_ ?_
  · rintro t rfl
    exact .reset
  · rintro t call t' h ⟨hcall, rfl⟩
    exact h.next hcall

/-! ## All or nothing -/

/-- A load that fails changes nothing. -/
def AllOrNothing (t : TreeState) (bytes beyond : List UInt8) : Prop :=
  (radOverlayLoadMemory t bytes beyond).1 ≠ .ok → (radOverlayLoadMemory t bytes beyond).2 = t

theorem allocateProperty_overlays (t : TreeState) (i : Nat) (name : CString) :
    (allocateProperty t i name).2.overlays = t.overlays := by
  unfold allocateProperty
  split
  · rfl
  · dsimp only
    split_ifs <;> rfl

theorem applyProperty_overlays (t : TreeState) (i : Nat) (record : OverlayPropertyRecord) :
    (applyProperty b t i record).2.overlays = t.overlays := by
  unfold applyProperty
  split
  · rfl
  · next name _ =>
    have halloc := allocateProperty_overlays t i name
    split
    · next t' h => simpa [h] using halloc
    · next k t' h =>
      rw [h] at halloc
      split
      · exact halloc
      · dsimp only
        split_ifs <;> exact halloc

theorem loadProperties_overlays (o i : Nat) (path : CString) (count k : Nat) (t : TreeState) :
    (loadProperties b o i path count k t).2.overlays.length = t.overlays.length := by
  induction count generalizing k t with
  | zero => rfl
  | succ count ih =>
    rw [loadProperties]
    cases b.props[k]? with
    | none => rfl
    | some record =>
      have happly := applyProperty_overlays (b := b) t i record
      dsimp only
      rw [andThen]
      split_ifs
      · obtain ⟨f, hf⟩ := nameOverlay_eq (applyProperty b t i record).2 o i path record
        rw [ih, hf, setOverlay, length_modify, happly]
      · rw [happly]

theorem allocateNode_overlays (t : TreeState) (path name parent : CString) :
    (allocateNode t path name parent).2.overlays = t.overlays := by
  unfold allocateNode
  split
  · rfl
  · split_ifs <;> rfl

theorem loadNode_overlays (o : Nat) (t : TreeState) (record : OverlayNodeRecord) :
    (loadNode b o t record).2.overlays.length = t.overlays.length := by
  unfold loadNode
  split
  · next path name parent _ _ _ =>
    have halloc := congrArg List.length (allocateNode_overlays t path name parent)
    split
    · next t' h => simpa [h] using halloc
    · next i t' h =>
      rw [h] at halloc
      rw [loadProperties_overlays, halloc]
  · rfl

theorem loadNodes_overlays (o : Nat) (records : List OverlayNodeRecord) (t : TreeState) :
    (loadNodes b o records t).2.overlays.length = t.overlays.length := by
  induction records generalizing t with
  | nil => rfl
  | cons record rest ih =>
    rw [loadNodes, andThen]
    split_ifs
    · rw [ih, loadNode_overlays]
    · exact loadNode_overlays o t record

/-- The overlay is refused before a record is taken for it, or every record of it can be read and
there is room for all. -/
def NoRecordFails (t : TreeState) (bytes beyond : List UInt8) : Prop :=
  ∀ b, parseBlob bytes beyond = some b → t.overlays.length < maxOverlays →
    ∃ ns, b.contents = some ns ∧ Fits (mergeAll t.view ns)

/-- When a failed load leaves the tables as they were. -/
theorem allOrNothing_iff (ht : t.Reached) (bytes beyond : List UInt8) :
    AllOrNothing t bytes beyond ↔ NoRecordFails t bytes beyond := by
  have hok := (radOverlayLoadMemory_loads ht.sound bytes beyond).ok_iff
  unfold AllOrNothing NoRecordFails
  cases hparse : parseBlob bytes beyond with
  | none => simp [radOverlayLoadMemory, hparse]
  | some b =>
    by_cases hfull : maxOverlays ≤ t.overlays.length
    · simp [radOverlayLoadMemory, hparse, hfull, Nat.not_lt.2 hfull]
    · have hmerged : merged t bytes beyond = b.contents.map (mergeAll t.view) := by
        simp [merged, hparse, hfull]
      rw [hmerged] at hok
      constructor
      · rintro h b' hb' -
        cases hb'
        by_contra hnot
        have hfail : (radOverlayLoadMemory t bytes beyond).1 ≠ .ok := by
          intro hstatus
          obtain ⟨v, hv, hfits⟩ := hok.1 hstatus
          obtain ⟨ns, hns, rfl⟩ := Option.map_eq_some_iff.1 hv
          exact hnot ⟨ns, hns, hfits⟩
        have hsame := congrArg (fun t => t.overlays.length) (h hfail)
        simp only [radOverlayLoadMemory, hparse, if_neg hfull, loadNodes_overlays,
          List.length_append, List.length_singleton] at hsame
        omega
      · intro h hfail
        obtain ⟨ns, hns, hfits⟩ := h b rfl (Nat.lt_of_not_le hfull)
        exact absurd (hok.2 ⟨_, Option.map_eq_some_iff.2 ⟨ns, hns, rfl⟩, hfits⟩) hfail

/-- An overlay with a node `/x` and a second one whose path lies outside of its strings. -/
def brokenOverlay : List UInt8 :=
  text "RADO" ++ encode 2 overlayVersion ++ encode 2 0 ++ encode 4 3 ++ encode 4 2 ++ encode 4 0 ++
    encode 4 0 ++ encode 4 0 ++ encode 4 2758338030 ++ text "/x" ++ [0] ++
    List.replicate 20 0 ++ encode 4 9 ++ List.replicate 16 0

theorem allOrNothing_reset : AllOrNothing radOverlayReset (text "bad") [] :=
  (allOrNothing_iff (.start rfl) (text "bad") []).2
    fun b hb => by
      have hnone : parseBlob (text "bad") [] = none := by decide
      rw [hnone] at hb
      cases hb

/-- The node of the rejected overlay stays. -/
theorem not_allOrNothing_brokenOverlay :
    ∃ t : TreeState, t.Reached ∧ ¬AllOrNothing t brokenOverlay [] ∧ findNode t (text "/x") = none ∧
      (findNode (radOverlayLoadMemory t brokenOverlay []).2 (text "/x")).isSome := by
  refine ⟨radOverlayReset, .start rfl, ?_, by decide, by decide +kernel⟩
  unfold AllOrNothing
  decide +kernel

end RadKernel.Overlay
