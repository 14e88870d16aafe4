import RadKernel.Overlay.Framebuffers
import RadKernel.Overlay.Growth
import RadKernel.Overlay.PassStatus

/-!
# Registrations that fail

A registration takes a slot before the step that may fail. The registration of a framebuffer drops
the primary flags of the others before it asks for a device; controllers and drivers stay when the
pass over the tree fails that they set off; an interrupt domain has its node and its properties before
there is a slot for it.
-/

namespace RadKernel.Overlay

open List

/-! ## The missing nodes of a path -/

/-- How many nodes `ensure_node_path` has to make for a path. -/
def missingNodes (t : TreeState) : Nat → CString → Nat
  | 0, _ => 0
  | rounds + 1, path =>
    if (findNode t path).isSome then 0
    else if parentOf path ≠ [] ∧ parentOf path ≠ path then
      missingNodes t rounds (parentOf path) + 1
    else 1

/-- Nodes with short paths were added to the tree. -/
def Adds (t t' : TreeState) (count limit : Nat) : Prop :=
  ∃ added : List TreeNode, t' = { t with nodes := t.nodes ++ added } ∧ added.length = count ∧
    ∀ node ∈ added, node.path.length ≤ limit

def freeNodes (t : TreeState) : Nat := maxTreeNodes - t.nodes.length

section Ensure

variable {t t' : TreeState} {path : CString} {count limit : Nat}

theorem Adds.refl (t : TreeState) (limit : Nat) : Adds t t 0 limit :=
  ⟨[], by rw [append_nil], rfl, fun node hnode => absurd hnode not_mem_nil⟩

theorem Adds.eq_iff (h : Adds t t' count limit) : t' = t ↔ count = 0 := by
  obtain ⟨added, rfl, rfl, -⟩ := h
  constructor
  · intro heq
    have hlength := congrArg (fun t => t.nodes.length) heq
    simpa using hlength
  · intro hnone
    rw [eq_nil_of_length_eq_zero hnone, append_nil]

theorem Adds.findNode (h : Adds t t' count limit) (hnone : findNode t path = none)
    (hlong : limit < path.length) : Overlay.findNode t' path = none := by
  obtain ⟨added, rfl, -, hshort⟩ := h
  refine List.findIdx?_eq_none_iff.2 fun node hnode => ?_
  rcases List.mem_append.1 hnode with hold | hnew
  · exact List.findIdx?_eq_none_iff.1 hnone node hold
  · refine decide_eq_false fun heq => ?_
    have := hshort node hnew
    rw [heq] at this
    omega

variable {limit' : Nat}

section
variable (h : Adds t t' count limit)
include h

theorem Adds.trans {t'' : TreeState} {count' : Nat}
    (h' : Adds t' t'' count' limit') (hlimit : limit ≤ limit') :
    Adds t t'' (count + count') limit' := by
  obtain ⟨added, rfl, rfl, hshort⟩ := h
  obtain ⟨added', rfl, rfl, hshort'⟩ := h'
  refine ⟨added ++ added', by simp, by simp, fun node hnode => ?_⟩
  rcases List.mem_append.1 hnode with hnode | hnode
  · exact le_trans (hshort node hnode) hlimit
  · exact hshort' node hnode

theorem Adds.mono (hlimit : limit ≤ limit') : Adds t t' count limit' := by
  obtain ⟨added, heq, hcount, hshort⟩ := h
  exact ⟨added, heq, hcount, fun node hnode => le_trans (hshort node hnode) hlimit⟩

theorem Adds.length : t'.nodes.length = t.nodes.length + count := by
  obtain ⟨added, rfl, rfl, -⟩ := h
  exact length_append

end

theorem allocateNode_none (hnone : findNode t path = none) (name parent : CString) :
    (t.nodes.length < maxTreeNodes ∧ (allocateNode t path name parent).1 = some t.nodes.length ∧
      Adds t (allocateNode t path name parent).2 1 path.length) ∨
    (maxTreeNodes ≤ t.nodes.length ∧ allocateNode t path name parent = (none, t)) := by
  unfold allocateNode
  rw [hnone]
  split_ifs with hfull
  · exact .inr ⟨hfull, rfl⟩
  · refine .inl ⟨Nat.lt_of_not_le hfull, rfl, [_], rfl, rfl, fun node hnode => ?_⟩
    rw [List.mem_singleton.1 hnode]
    exact length_copyString_le ..

theorem head_parentOf (h : parentOf path ≠ []) (hhead : path.head? = some 47) :
    (parentOf path).head? = some 47 := by
  obtain ⟨j, -, -, heq⟩ := parentOf_eq h
  rw [heq]
  split_ifs with hzero
  · decide
  · cases path with
    | nil => cases hhead
    | cons byte rest =>
      obtain ⟨m, rfl⟩ := Nat.exists_eq_succ_of_ne_zero hzero
      simpa [copyString, treeMaxPath] using hhead

/-- What a count of missing nodes says about the call that makes them. -/
def Ensures (t : TreeState) (path : CString) (result : Option Nat × TreeState) (missing : Nat) :
    Prop :=
  if missing ≤ freeNodes t then result.1.isSome = true ∧ Adds t result.2 missing path.length
  else result.1 = none ∧ Adds t result.2 (freeNodes t) path.length

theorem missingNodes_eq_zero (rounds : Nat) :
    missingNodes t (rounds + 1) path = 0 ↔ (findNode t path).isSome = true := by
  rw [missingNodes]
  split_ifs with hfound <;> simp [hfound]

variable {rounds : Nat}

theorem ensureNodes_found (hhead : path.head? = some 47)
    (hfound : findNode t path = some i) : ensureNodes (rounds + 1) t path = (some i, t) := by
  have hne : ¬ (path = [] ∨ path.head? ≠ some 47) := by
    rintro (rfl | hbad)
    · cases hhead
    · exact hbad hhead
  simp only [ensureNodes]
  rw [if_neg hne, hfound]

/-- The last node is made after its ancestors. -/
theorem ensures_allocate (h : Adds t t' count limit) (hnone : findNode t path = none)
    (hlong : limit < path.length) (hcount : count ≤ freeNodes t) (name parent : CString) :
    Ensures t path (allocateNode t' path name parent) (count + 1) := by
  have hlength := h.length
  rw [freeNodes] at hcount
  rw [Ensures]
  rcases allocateNode_none (h.findNode hnone hlong) name parent with
    ⟨hroom, hsome, hadds⟩ | ⟨hfull, heq⟩
  · rw [if_pos (by rw [freeNodes]; omega)]
    exact ⟨by rw [hsome]; rfl, h.trans hadds hlong.le⟩
  · rw [if_neg (by rw [freeNodes]; omega), heq]
    have hall : freeNodes t = count := by
      rw [freeNodes]
      omega
    exact ⟨rfl, hall ▸ h.mono hlong.le⟩

/-- Either all the missing nodes are made, or the table is filled. -/
theorem ensureNodes_spec (hrounds : path.length < rounds) (hhead : path.head? = some 47) :
    Ensures t path (ensureNodes rounds t path) (missingNodes t rounds path) := by
  induction rounds generalizing path with
  | zero => omega
  | succ rounds ih =>
    have hne : ¬ (path = [] ∨ path.head? ≠ some 47) := by
      rintro (rfl | hbad)
      · cases hhead
      · exact hbad hhead
    simp only [ensureNodes, missingNodes]
    rw [if_neg hne]
    cases hfind : findNode t path with
    | some i =>
      exact ⟨rfl, .refl t _⟩
    | none =>
      rw [Option.isSome_none, if_neg Bool.false_ne_true]
      have hpositive : 0 < path.length := by
        cases path with
        | nil => cases hhead
        | cons byte rest => exact Nat.succ_pos _
      by_cases hparent : parentOf path ≠ [] ∧ parentOf path ≠ path
      · rw [if_pos hparent]
        have hshort := length_parentOf_lt hparent.1
        have hup := ih (by omega) (head_parentOf hparent.1 hhead)
        by_cases hfound : findNode t (parentOf path) = none
        · rw [if_pos ⟨hparent.1, hparent.2, hfound⟩]
          rw [Ensures] at hup
          cases hparents : ensureNodes rounds t (parentOf path) with
          | mk result t' =>
            rw [hparents] at hup
            split_ifs at hup with hroom
            · obtain ⟨j, rfl⟩ := Option.isSome_iff_exists.1 hup.1
              exact ensures_allocate hup.2 hfind hshort hroom _ _
            · obtain rfl : result = none := hup.1
              rw [Ensures, if_neg (by omega)]
              exact ⟨rfl, hup.2.mono hshort.le⟩
        · rw [if_neg fun h => hfound h.2.2]
          have hzero : missingNodes t rounds (parentOf path) = 0 := by
            cases rounds with
            | zero => omega
            | succ rounds =>
              rw [missingNodes, if_pos (Option.isSome_iff_ne_none.2 hfound)]
          rw [hzero]
          exact ensures_allocate (.refl t 0) hfind hpositive (Nat.zero_le _) _ _
      · rw [if_neg hparent, if_neg fun h => hparent ⟨h.1, h.2.1⟩]
        exact ensures_allocate (.refl t 0) hfind hpositive (Nat.zero_le _) _ _

end Ensure

/-! ## Properties that are there already -/

/-- Setting the property changes nothing: the node has it with the value, or cannot get it. -/
def KeepsProperty (t : TreeState) (i : Nat) (name : CString) (value : PropertyValue) : Prop :=
  match findProperty t i name with
  | some k => (t.prop k).value = value
  | none => maxNodeProperties ≤ (t.node i).properties.length ∨ maxTreeProps ≤ t.props.length

section Properties

variable {t : TreeState} {i k : Nat} {name : CString} {value : PropertyValue}

theorem findProperty_some (h : findProperty t i name = some k) :
    k < t.props.length ∧ (t.prop k).name = name := by
  have hfound := List.find?_some h
  simpa using hfound

theorem setValue_eq_iff (hk : k < t.props.length) :
    setValue t k value = t ↔ (t.prop k).value = value := by
  have hprop : t.prop k = t.props[k] := by
    rw [TreeState.prop, getD_eq_getElem?_getD, List.getElem?_eq_getElem hk]
    rfl
  constructor
  · intro heq
    have hat := congrArg (fun t => t.props[k]?) heq
    simp only [setValue, List.getElem?_set_self hk, List.getElem?_eq_getElem hk] at hat
    rw [hprop, ← Option.some.inj hat]
  · intro hvalue
    have hself : { t.prop k with value := value } = t.props[k] := by
      rw [← hvalue, hprop]
    rw [setValue, hself, set_getElem_self]

/-- The steps of `setProperty`: the value of the property, or a new property. -/
theorem setProperty_cases (t : TreeState) (i : Nat) (name : CString) (value : PropertyValue) :
    (KeepsProperty t i name value ∧ setProperty t i name value = t) ∨
    ¬ KeepsProperty t i name value ∧
      ((∃ k, k < t.props.length ∧ (t.prop k).name = name ∧ (t.prop k).value ≠ value ∧
        setProperty t i name value = setValue t k value) ∨
      (setProperty t i name value).props.length = t.props.length + 1) := by
  unfold setProperty KeepsProperty allocateProperty
  cases hfind : findProperty t i name with
  | some k =>
    obtain ⟨hk, hname⟩ := findProperty_some hfind
    by_cases hvalue : (t.prop k).value = value
    · exact .inl ⟨hvalue, (setValue_eq_iff hk).2 hvalue⟩
    · exact .inr ⟨hvalue, .inl ⟨k, hk, hname, hvalue, rfl⟩⟩
  | none =>
    by_cases hnode : maxNodeProperties ≤ (t.node i).properties.length
    · rw [if_pos hnode]
      exact .inl ⟨.inl hnode, rfl⟩
    · rw [if_neg hnode]
      by_cases hprops : maxTreeProps ≤ t.props.length
      · rw [if_pos hprops]
        exact .inl ⟨.inr hprops, rfl⟩
      · rw [if_neg hprops]
        exact .inr ⟨by simp [hnode, hprops], .inr (by simp [setValue, setNode])⟩

def setProperties (t : TreeState) (i : Nat) (l : List (CString × PropertyValue)) : TreeState :=
  l.foldl (fun t p => setProperty t i p.1 p.2) t

theorem length_le_setProperties (l : List (CString × PropertyValue)) (t : TreeState) :
    t.props.length ≤ (setProperties t i l).props.length := by
  induction l generalizing t with
  | nil => exact le_rfl
  | cons p l ih =>
    refine le_trans ?_ (ih (setProperty t i p.1 p.2))
    rcases setProperty_cases t i p.1 p.2 with ⟨-, heq⟩ | ⟨-, ⟨k, -, -, -, heq⟩ | hlength⟩
    · rw [heq]
    · rw [heq]
      simp [setValue]
    · omega

theorem prop_setProperty (hk : k < t.props.length) (hname : (t.prop k).name ≠ name) :
    (setProperty t i name value).prop k = t.prop k := by
  have hat : ∀ {t' : TreeState}, t'.props[k]? = t.props[k]? → t'.prop k = t.prop k := fun h => by
    rw [TreeState.prop, TreeState.prop, getD_eq_getElem?_getD, getD_eq_getElem?_getD, h]
  unfold setProperty allocateProperty
  cases hfind : findProperty t i name with
  | some j =>
    have hjk : j ≠ k := fun heq => hname (heq ▸ (findProperty_some hfind).2)
    refine hat ?_
    exact List.getElem?_set_ne hjk
  | none =>
    dsimp only
    split_ifs
    · rfl
    · rfl
    · refine hat ?_
      simp only [setValue, setNode]
      rw [List.getElem?_set_ne (by omega), List.getElem?_append_left hk]

theorem prop_setProperties (l : List (CString × PropertyValue)) (t : TreeState)
    (hk : k < t.props.length) (hnames : ∀ p ∈ l, (t.prop k).name ≠ p.1) :
    (setProperties t i l).prop k = t.prop k := by
  induction l generalizing t with
  | nil => rfl
  | cons p l ih =>
    have hfirst : (setProperty t i p.1 p.2).prop k = t.prop k :=
      prop_setProperty hk (hnames p mem_cons_self)
    have hlength : t.props.length ≤ (setProperty t i p.1 p.2).props.length :=
      length_le_setProperties [p] t
    refine (ih (setProperty t i p.1 p.2) (by omega) fun q hq => ?_).trans hfirst
    rw [hfirst]
    exact hnames q (mem_cons_of_mem p hq)

/-- Properties of different names leave the tree as it was when each of them does. -/
theorem setProperties_eq_iff (l : List (CString × PropertyValue))
    (hdistinct : (l.map Prod.fst).Nodup) :
    setProperties t i l = t ↔ ∀ p ∈ l, KeepsProperty t i p.1 p.2 := by
  induction l with
  | nil => exact iff_of_true rfl fun p hp => absurd hp not_mem_nil
  | cons p l ih =>
    rw [map_cons, nodup_cons] at hdistinct
    rw [forall_mem_cons]
    have hstep : setProperties t i (p :: l) = setProperties (setProperty t i p.1 p.2) i l := rfl
    rw [hstep]
    rcases setProperty_cases t i p.1 p.2 with
      ⟨hkeeps, heq⟩ | ⟨hnot, ⟨k, hk, hname, hvalue, heq⟩ | hlength⟩
    · rw [heq, ih hdistinct.2]
      exact (and_iff_right hkeeps).symm
    · refine iff_of_false (fun hsame => hvalue ?_) fun hall => hnot hall.1
      -- The later properties have other names, so that the new value stays.
      have hset : (setProperty t i p.1 p.2).prop k = { t.prop k with value := p.2 } := by
        rw [heq, TreeState.prop, setValue, getD_eq_getElem?_getD, List.getElem?_set_self hk]
        rfl
      have hlt : k < (setProperty t i p.1 p.2).props.length := by
        rw [heq]
        simpa [setValue] using hk
      have hstays := prop_setProperties (i := i) l (setProperty t i p.1 p.2) hlt
        fun q hq hqname => hdistinct.1 <| by
          rw [hset] at hqname
          exact List.mem_map.2 ⟨q, hq, hqname.symm.trans hname⟩
      rw [hsame, hset] at hstays
      rw [hstays]
    · refine iff_of_false (fun hsame => ?_) fun hall => hnot hall.1
      have hgrown := length_le_setProperties (i := i) l (setProperty t i p.1 p.2)
      rw [hsame] at hgrown
      omega

theorem name_setProperty (t : TreeState) (i j : Nat) (name : CString) (value : PropertyValue) :
    ((setProperty t i name value).node j).name = (t.node j).name := by
  unfold setProperty allocateProperty
  cases findProperty t i name with
  | some k => rfl
  | none =>
    dsimp only
    split_ifs
    · rfl
    · rfl
    · simp only [setValue, setNode, TreeState.node, getD_eq_getElem?_getD, List.getElem?_set]
      split_ifs with hij hlt
      · subst hij
        rfl
      · subst hij
        rw [List.getElem?_eq_none (Nat.le_of_not_lt hlt)]
      · rfl

end Properties

/-! ## Tables -/

/-- The records in use, before or after, are the same. -/
def SameTable {α : Type} (used : α → Bool) (table table' : Nat → α) : Prop :=
  ∀ i, used (table i) = true ∨ used (table' i) = true → table' i = table i

/-- The tables of framebuffers, controllers, drivers, domains and the tree. -/
structure SameTables (s s' : Runtime) : Prop where
  framebuffers : SameTable FramebufferRecord.used s.framebuffers s'.framebuffers
  controllers : ∀ kind, SameTable BusController.used (s.buses.bus kind).controllers
    (s'.buses.bus kind).controllers
  drivers : ∀ kind, SameTable BusDriver.used (s.buses.bus kind).drivers (s'.buses.bus kind).drivers
  domains : SameTable IrqDomain.used s.buses.domains s'.buses.domains
  tree : s'.buses.tree = s.buses.tree

variable {α : Type} {i : Nat} {config : IrqDomainConfig}

theorem SameTable.refl (used : α → Bool) (table : Nat → α) :
    SameTable used table table := fun _ _ => rfl

/-- A record that is not in use is replaced by one that is not. -/
theorem SameTable.update {used : α → Bool} {table : Nat → α} {record : α}
    (hold : used (table i) = false) (hnew : used record = false) :
    SameTable used table (Function.update table i record) := by
  intro j hj
  by_cases hij : j = i
  · subst hij
    rw [Function.update_self, hold, hnew] at hj
    simp at hj
  · rw [Function.update_of_ne hij]

theorem SameTables.refl (s : Runtime) : SameTables s s :=
  ⟨.refl _ _, fun _ => .refl _ _, fun _ => .refl _ _, .refl _ _, rfl⟩

theorem SameTables.primary {s' : Runtime} (h : SameTables s s') :
    findPrimaryFramebuffer s' = findPrimaryFramebuffer s := by
  have hsame : ∀ i, (s'.framebuffers i).used = (s.framebuffers i).used ∧
      ((s.framebuffers i).used = true → s'.framebuffers i = s.framebuffers i) := by
    intro i
    refine ⟨?_, fun hused => h.framebuffers i (.inl hused)⟩
    by_cases hused : (s.framebuffers i).used = true ∨ (s'.framebuffers i).used = true
    · rw [h.framebuffers i hused]
    · push Not at hused
      rw [Bool.eq_false_of_not_eq_true hused.1, Bool.eq_false_of_not_eq_true hused.2]
  have hboth : ∀ i, (s'.framebuffers i).used = true ∧ (s'.framebuffers i).primary = true ↔
      (s.framebuffers i).used = true ∧ (s.framebuffers i).primary = true := by
    intro i
    obtain ⟨hused, hrecord⟩ := hsame i
    by_cases hu : (s.framebuffers i).used = true
    · rw [hrecord hu]
    · rw [hused]
      exact iff_of_false (fun h => hu h.1) fun h => hu h.1
  have hfirst : (fun i => decide ((s'.framebuffers i).used = true ∧
      (s'.framebuffers i).primary = true)) =
      fun i => decide ((s.framebuffers i).used = true ∧ (s.framebuffers i).primary = true) :=
    funext fun i => decide_eq_decide.2 (hboth i)
  have hsecond : (fun i => (s'.framebuffers i).used) = fun i => (s.framebuffers i).used :=
    funext fun i => (hsame i).1
  rw [findPrimaryFramebuffer, hfirst, hsecond]
  rfl

/-! ## Calls -/

/-- A registration, with what `rad_device_register` and the probe callbacks answer in it. -/
inductive RegisterCall where
  | framebuffer (config : FramebufferConfig) (setsMode : Bool) (registered : Status)
  | controller (kind : BusKind) (config : BusControllerConfig) (registered : Status)
      (answers : Nat → Status)
  | driver (kind : BusKind) (spec : BusDriverSpec) (answers : Nat → Status)
  | domain (config : IrqDomainConfig)

def Runtime.onBuses (s : Runtime) (result : Status × Buses) : Status × Runtime :=
  (result.1, { s with buses := result.2 })

def RegisterCall.perform (s : Runtime) : RegisterCall → Status × Runtime
  | .framebuffer config setsMode registered =>
    radFramebufferRegisterEx s config setsMode registered
  | .controller kind config registered answers =>
    s.onBuses (controllerRegister kind s.buses config registered answers)
  | .driver kind spec answers => s.onBuses (driverRegister kind s.buses spec answers)
  | .domain config => s.onBuses (radIrqDomainRegister s.buses config)

/-- The call succeeds, or the tables are as before, and the primary framebuffer is the same. -/
def Undone (s : Runtime) (result : Status × Runtime) : Prop :=
  result.1 = .ok ∨
    SameTables s result.2 ∧ findPrimaryFramebuffer result.2 = findPrimaryFramebuffer s

theorem undone_iff_same {result : Status × Runtime} (h : result.1 ≠ .ok) :
    Undone s result ↔ SameTables s result.2 :=
  ⟨fun hundone => (hundone.resolve_left h).1, fun hsame => .inr ⟨hsame, hsame.primary⟩⟩

/-- The configuration passes the checks of `rad_irq_domain_register`. -/
def IrqDomainConfig.Valid (config : IrqDomainConfig) : Prop :=
  config.treePath ≠ [] ∧ ¬ (config.size ≠ 0 ∧ config.size < irqDomainConfigBytes) ∧
    ¬ (config.interruptCells = 0 ∨ 2 < config.interruptCells)

/-- The properties that the node of a domain gets. -/
def domainValues (config : IrqDomainConfig) (nodeName : CString) :
    List (CString × PropertyValue) :=
  [(text "interrupt-controller", { type := treePropBool, boolValue := true }),
    (text "#interrupt-cells", { type := treePropU32, u32Value := config.interruptCells }),
    (text "interrupt-base", { type := treePropU32, u32Value := config.interruptBase }),
    (text "interrupt-count", { type := treePropU32, u32Value := config.lineCount }),
    (text "name", { type := treePropString
                    stringValue := copyString treeMaxValue (config.name.getD nodeName) })]

def freeDomain (domains : Nat → IrqDomain) : Option Nat :=
  (List.range maxIrqDomains).find? fun j => !(domains j).used

def withController (s : Buses) (kind : BusKind) (c : Nat) (config : BusControllerConfig) : Buses :=
  s.setBus kind ((s.bus kind).setController c
    { busId := config.busId, clockHz := config.clockHz, used := true })

def withDriver (s : Buses) (kind : BusKind) (d : Nat) (spec : BusDriverSpec) : Buses :=
  s.setBus kind ((s.bus kind).setDriver d (newDriver spec))

/-- A pass over the tree finds records for all new devices, and its probes succeed. -/
def PassSucceeds (kind : BusKind) (s : Buses) (answers : Nat → Status) : Prop :=
  HasRoom kind s (List.range s.tree.nodes.length) ∧
    ProbesSucceed kind s answers (List.range s.tree.nodes.length)

/-- No step of the call fails after the first change to the tables. -/
def Finishes (s : Runtime) : RegisterCall → Prop
  | .framebuffer config _ registered =>
    config.Valid → findFramebuffer s (config.name.getD []) = none →
      (freeFramebuffer s).isSome = true →
      registered = .ok ∨ config.primary = false ∨
        ∀ i < maxFramebuffers, (s.framebuffers i).used = true → (s.framebuffers i).primary = false
  | .controller kind config registered answers =>
    findController (s.buses.bus kind) config.busId = none →
      ∀ c, freeController (s.buses.bus kind) = some c → registered = .ok →
      PassSucceeds kind (withController s.buses kind c config) answers
  | .driver kind spec answers =>
    findDriverByName (s.buses.bus kind) spec.name = none →
      ∀ d, freeDriver (s.buses.bus kind) = some d →
      PassSucceeds kind (withDriver s.buses kind d spec) answers
  | .domain config =>
    let t := s.buses.tree
    let missing := missingNodes t (config.treePath.length + 1) config.treePath
    config.Valid → findIrqDomainByPath s.buses.domains config.treePath = none →
      config.treePath.head? = some 47 →
      if missing ≤ freeNodes t then
        (freeDomain s.buses.domains).isSome = true ∨
          ∃ i, findNode t config.treePath = some i ∧
            ∀ p ∈ domainValues config (t.node i).name, KeepsProperty t i p.1 p.2
      else freeNodes t = 0

/-! ## Framebuffers -/

variable {s : Runtime}

theorem dropPrimary_same (hfree : (s.framebuffers i).used = false) :
    SameTable FramebufferRecord.used s.framebuffers
        (Function.update (dropPrimary s i).framebuffers i {}) ↔
      ∀ j < maxFramebuffers, (s.framebuffers j).used = true → (s.framebuffers j).primary = false := by
  have hat : ∀ j, j ≠ i → Function.update (dropPrimary s i).framebuffers i {} j =
      if j < maxFramebuffers then { s.framebuffers j with primary := false }
      else s.framebuffers j := by
    intro j hj
    simp [dropPrimary, hj]
  constructor
  · intro hsame j hj hused
    have hne : j ≠ i := fun heq => by
      rw [heq, hfree] at hused
      cases hused
    have hrecord := hsame j (.inl hused)
    rw [hat j hne, if_pos hj] at hrecord
    rw [← hrecord]
  · intro hnone j hj
    by_cases hne : j = i
    · subst hne
      rw [Function.update_self, hfree] at hj
      simp at hj
    · rw [hat j hne] at hj ⊢
      split_ifs at hj ⊢ with hlt
      · have hused : (s.framebuffers j).used = true := by simpa using hj
        rw [show false = (s.framebuffers j).primary from (hnone j hlt hused).symm]
      · rfl

/-- The slot of a framebuffer that is refused is zeroed again; the flags are not set back. -/
theorem sameTables_framebuffer (config : FramebufferConfig)
    (hfree : (s.framebuffers i).used = false) :
    SameTables s ((if config.primary || (findPrimaryFramebuffer s).isNone then dropPrimary s i
        else s).setFramebuffer i {}) ↔
      config.primary = false ∨
        ∀ j < maxFramebuffers, (s.framebuffers j).used = true →
          (s.framebuffers j).primary = false := by
  have hclears : SameTables s (s.setFramebuffer i {}) :=
    ⟨.update hfree rfl, fun _ => .refl _ _, fun _ => .refl _ _, .refl _ _, rfl⟩
  have hdrops : SameTables s ((dropPrimary s i).setFramebuffer i {}) ↔
      ∀ j < maxFramebuffers, (s.framebuffers j).used = true →
        (s.framebuffers j).primary = false :=
    ⟨fun h => (dropPrimary_same hfree).1 h.framebuffers, fun h =>
      ⟨(dropPrimary_same hfree).2 h, fun _ => .refl _ _, fun _ => .refl _ _, .refl _ _, rfl⟩⟩
  cases hprimary : config.primary with
  | true =>
    rw [Bool.true_or, if_pos rfl, hdrops]
    simp
  | false =>
    refine iff_of_true ?_ (.inl rfl)
    rw [Bool.false_or]
    split_ifs with hnone
    · -- Without a primary framebuffer no record is in use.
      refine hdrops.2 fun j hj hused => ?_
      rw [Option.isNone_iff_eq_none, findPrimaryFramebuffer, Option.or_eq_none_iff] at hnone
      exact absurd hused (List.find?_eq_none.1 hnone.2 j (List.mem_range.2 hj))
    · exact hclears

theorem undone_framebuffer (config : FramebufferConfig) (setsMode : Bool) (registered : Status) :
    Undone s (RegisterCall.perform s (.framebuffer config setsMode registered)) ↔
      Finishes s (.framebuffer config setsMode registered) := by
  have hrefused : ∀ {status : Status}, status ≠ .ok → Undone s (status, s) := fun _ =>
    .inr ⟨.refl s, rfl⟩
  unfold RegisterCall.perform radFramebufferRegisterEx Finishes
  dsimp only
  by_cases hvalid : config.Valid
  · rw [if_neg (not_not.2 hvalid)]
    cases hfind : findFramebuffer s (config.name.getD []) with
    | some j =>
      exact iff_of_true (hrefused (by decide)) fun _ hnone => by cases hnone
    | none =>
      cases hslot : freeFramebuffer s with
      | none => exact iff_of_true (hrefused (by decide)) fun _ _ hsome => by cases hsome
      | some i =>
        dsimp only
        have hfree : (s.framebuffers i).used = false := by simpa using List.find?_some hslot
        by_cases hregistered : registered = .ok
        · rw [if_neg (not_not.2 hregistered)]
          exact iff_of_true (.inl rfl) fun _ _ _ => .inl hregistered
        · rw [if_pos hregistered, undone_iff_same hregistered]
          refine (sameTables_framebuffer config hfree).trans ⟨fun h _ _ _ => .inr h, fun h => ?_⟩
          exact (h hvalid rfl rfl).resolve_left hregistered
  · rw [if_pos hvalid]
    exact iff_of_true (hrefused (by decide)) fun h => absurd h hvalid

/-! ## Controllers and drivers -/

section Passes

variable {kind : BusKind}

def SameParts (b b' : Bus) : Prop := b'.controllers = b.controllers ∧ b'.drivers = b.drivers

theorem sameParts_bindNode (kind : BusKind) (b : Buses) (i : Nat) (answer : Status) :
    SameParts (b.bus kind) ((bindNode kind b i answer).2.bus kind) := by
  cases hwanted : wanted kind b i with
  | none =>
    rw [bindNode_none hwanted]
    exact ⟨rfl, rfl⟩
  | some compatible =>
    obtain ⟨busId, unit, c, hround⟩ := bindNode_some hwanted answer
    rw [hround]
    cases hslot : deviceSlot (b.bus kind) (b.tree.node i).path with
    | none => exact ⟨rfl, rfl⟩
    | some slot =>
      obtain ⟨k, b'⟩ := slot
      obtain ⟨-, hcontrollers, hdrivers, -⟩ := deviceSlot_slotFor hslot
      have hself : ∀ {u : Buses} {v : Bus}, (u.setBus kind v).bus kind = v :=
        Function.update_self ..
      dsimp only
      split_ifs with hbound
      · exact ⟨(congrArg Bus.controllers hself).trans hcontrollers,
          (congrArg Bus.drivers hself).trans hdrivers⟩
      · unfold describeDevice
        dsimp only
        generalize described kind b.tree i busId unit compatible c (b'.controllers c)
          (resolveIrqResources b.tree b.domains i irqMaxResources).1 (b'.devices k) = device
        obtain ⟨-, -, -, -, -, hcs, hds⟩ := probeDevice_spec (b'.setDevice k device) k answer
        have hparts : SameParts (b.bus kind) (probeDevice (b'.setDevice k device) k answer).2 :=
          ⟨hcs.trans hcontrollers, hds.trans hdrivers⟩
        split_ifs
        · rwa [hself]
        · rwa [show ∀ t, ({ ({ b with
              domains := (resolveIrqResources b.tree b.domains i irqMaxResources).2 } : Buses).setBus
                kind (probeDevice (b'.setDevice k device) k answer).2 with tree := t } : Buses).bus
              kind = (probeDevice (b'.setDevice k device) k answer).2 from fun _ => hself]

theorem sameParts_bindNodes (answers : Nat → Status) (nodes : List Nat) (b : Buses) :
    SameParts (b.bus kind) ((bindNodes kind answers nodes b).2.bus kind) := by
  induction nodes generalizing b with
  | nil => exact ⟨rfl, rfl⟩
  | cons i nodes ih =>
    have hround := sameParts_bindNode kind b i (answers i)
    rw [bindNodes]
    cases hresult : bindNode kind b i (answers i) with
    | mk status b' =>
      rw [hresult] at hround
      cases status with
      | ok => exact ⟨(ih b').1.trans hround.1, (ih b').2.trans hround.2⟩
      | _ => exact hround

variable {b : Buses}

theorem sameTable_setBus {used : α → Bool} (table : Bus → Nat → α) {v : Bus}
    (h : SameTable used (table (b.bus kind)) (table v)) (other : BusKind) :
    SameTable used (table (b.bus other)) (table ((b.setBus kind v).bus other)) := by
  by_cases hkind : other = kind
  · subst hkind
    rwa [setBus_bus]
  · have hother : (b.setBus kind v).bus other = b.bus other := Function.update_of_ne hkind ..
    rw [hother]
    exact .refl _ _

/-- A pass that fails leaves the record that it was run for. -/
theorem undone_pass {answers : Nat → Status}
    (hstored : ∀ i < b.tree.nodes.length, (b.tree.node i).path.length < treeMaxPath)
    (hkept : ∀ b' : Buses, SameParts (b.bus kind) (b'.bus kind) →
      ¬ SameTables s { s with buses := b' }) :
    Undone s (s.onBuses (bindBusTree kind b answers)) ↔ PassSucceeds kind b answers := by
  rw [PassSucceeds, ← bindBusTree_ok_iff hstored]
  by_cases hok : (bindBusTree kind b answers).1 = .ok
  · exact iff_of_true (.inl hok) hok
  · refine iff_of_false (fun hundone => ?_) hok
    exact hkept _ (sameParts_bindNodes answers _ b) ((undone_iff_same hok).1 hundone)

theorem undone_controller (config : BusControllerConfig) (registered : Status)
    (answers : Nat → Status)
    (hstored : ∀ i < s.buses.tree.nodes.length, (s.buses.tree.node i).path.length < treeMaxPath) :
    Undone s (RegisterCall.perform s (.controller kind config registered answers)) ↔
      Finishes s (.controller kind config registered answers) := by
  have hrefused : ∀ {status : Status}, status ≠ .ok →
      Undone s (s.onBuses (status, s.buses)) := fun _ => .inr ⟨.refl s, rfl⟩
  unfold RegisterCall.perform controllerRegister Finishes
  dsimp only
  cases hfind : findController (s.buses.bus kind) config.busId with
  | some c =>
    exact iff_of_true (hrefused (by decide)) fun hnone => by cases hnone
  | none =>
    cases hslot : freeController (s.buses.bus kind) with
    | none => exact iff_of_true (hrefused (by decide)) fun _ c hc => by cases hc
    | some c =>
      have hfree : ((s.buses.bus kind).controllers c).used = false := by
        simpa using List.find?_some hslot
      dsimp only
      by_cases hregistered : registered = .ok
      · rw [if_neg (not_not.2 hregistered)]
        refine (undone_pass (b := withController s.buses kind c config) hstored
          fun b' hparts hsame => ?_).trans ⟨fun h _ d hd _ => ?_, fun h => h rfl c rfl hregistered⟩
        · have hused : ((b'.bus kind).controllers c).used = true := by
            rw [hparts.1, withController, setBus_bus, Bus.setController_controllers, if_pos rfl]
          have hrecord := hsame.controllers kind c (.inr hused)
          rw [hrecord, hfree] at hused
          cases hused
        · cases hd
          exact h
      · rw [if_pos hregistered]
        refine iff_of_true ((undone_iff_same hregistered).2 ?_) fun _ _ _ h => absurd h hregistered
        exact ⟨.refl _ _, sameTable_setBus Bus.controllers (.update hfree rfl),
          sameTable_setBus Bus.drivers (.refl _ _), .refl _ _, rfl⟩

theorem undone_driver (spec : BusDriverSpec) (answers : Nat → Status)
    (hstored : ∀ i < s.buses.tree.nodes.length, (s.buses.tree.node i).path.length < treeMaxPath) :
    Undone s (RegisterCall.perform s (.driver kind spec answers)) ↔
      Finishes s (.driver kind spec answers) := by
  have hrefused : ∀ {status : Status}, status ≠ .ok →
      Undone s (s.onBuses (status, s.buses)) := fun _ => .inr ⟨.refl s, rfl⟩
  unfold RegisterCall.perform driverRegister Finishes
  dsimp only
  cases hfind : findDriverByName (s.buses.bus kind) spec.name with
  | some d =>
    exact iff_of_true (hrefused (by decide)) fun hnone => by cases hnone
  | none =>
    cases hslot : freeDriver (s.buses.bus kind) with
    | none => exact iff_of_true (hrefused (by decide)) fun _ d hd => by cases hd
    | some d =>
      have hfree : ((s.buses.bus kind).drivers d).used = false := by
        simpa using List.find?_some hslot
      refine (undone_pass (b := withDriver s.buses kind d spec) hstored
        fun b' hparts hsame => ?_).trans ⟨fun h _ d' hd => ?_, fun h => h rfl d rfl⟩
      · have hused : ((b'.bus kind).drivers d).used = true := by
          rw [hparts.2, withDriver, setBus_bus, Bus.setDriver_drivers, if_pos rfl]
          rfl
        have hrecord := hsame.drivers kind d (.inr hused)
        rw [hrecord, hfree] at hused
        cases hused
      · cases hd
        exact h

end Passes

/-! ## Interrupt domains -/

theorem length_setProperty (t : TreeState) (i : Nat) (name : CString) (value : PropertyValue) :
    (setProperty t i name value).nodes.length = t.nodes.length := by
  unfold setProperty allocateProperty
  cases findProperty t i name with
  | some k => rfl
  | none =>
    dsimp only
    split_ifs
    · rfl
    · rfl
    · exact length_set

theorem length_setProperties (l : List (CString × PropertyValue)) (t : TreeState) (i : Nat) :
    (setProperties t i l).nodes.length = t.nodes.length := by
  induction l generalizing t with
  | nil => rfl
  | cons p l ih => exact (ih (setProperty t i p.1 p.2)).trans (length_setProperty t i p.1 p.2)

theorem setProperties_domain (t : TreeState) (i : Nat) (config : IrqDomainConfig) :
    let t' := setPropertyU32 (setPropertyU32 (setPropertyU32 (setPropertyBool t i
      (text "interrupt-controller") true) i (text "#interrupt-cells") config.interruptCells) i
      (text "interrupt-base") config.interruptBase) i (text "interrupt-count") config.lineCount
    setPropertyString t' i (text "name") (config.name.getD (t'.node i).name) =
      setProperties t i (domainValues config (t.node i).name) := by
  intro t'
  have hname : (t'.node i).name = (t.node i).name := by
    simp only [t', setPropertyU32, setPropertyBool, name_setProperty]
  have hkey : text "name" ≠ text "module" := by decide
  rw [setPropertyString_of_ne t' hkey, hname]
  simp only [t', setPropertyU32, setPropertyBool, setProperties, domainValues, foldl_cons,
    foldl_nil]

theorem keys_domainValues (config : IrqDomainConfig) (nodeName : CString) :
    ((domainValues config nodeName).map Prod.fst).Nodup := by
  have hkeys : [text "interrupt-controller", text "#interrupt-cells", text "interrupt-base",
      text "interrupt-count", text "name"].Nodup := by
    decide
  simpa only [domainValues, map_cons, map_nil] using hkeys

theorem allocateIrqDomain_new {domains : Nat → IrqDomain}
    (hpath : config.treePath ≠ []) (hnew : findIrqDomainByPath domains config.treePath = none) :
    (allocateIrqDomain domains config).1 = freeDomain domains ∧
      (freeDomain domains = none → (allocateIrqDomain domains config).2 = domains) := by
  have hcases : allocateIrqDomain domains config = (freeDomain domains).elim (none, domains)
      fun j => (some j, (allocateIrqDomain domains config).2) := by
    unfold allocateIrqDomain
    rw [if_neg hpath, hnew, freeDomain]
    cases (List.range maxIrqDomains).find? fun j => !(domains j).used <;> rfl
  rw [hcases]
  cases hslot : freeDomain domains with
  | none => exact ⟨rfl, fun _ => rfl⟩
  | some j => exact ⟨rfl, fun h => by cases h⟩

/-- The node of the domain is made and gets its properties before a slot is looked for. -/
theorem domain_noSlot {t : TreeState} {missing limit : Nat}
    (hadds : Adds s.buses.tree t missing limit)
    (hfound : missing = 0 → findNode s.buses.tree config.treePath = some i)
    (hnew : missing ≠ 0 → findNode s.buses.tree config.treePath = none) :
    setProperties t i (domainValues config (t.node i).name) = s.buses.tree ↔
      ∃ i, findNode s.buses.tree config.treePath = some i ∧
        ∀ p ∈ domainValues config (s.buses.tree.node i).name,
          KeepsProperty s.buses.tree i p.1 p.2 := by
  by_cases hzero : missing = 0
  · obtain rfl : t = s.buses.tree := hadds.eq_iff.2 hzero
    rw [setProperties_eq_iff _ (keys_domainValues config _), hfound hzero]
    constructor
    · intro hkeeps
      exact ⟨i, rfl, hkeeps⟩
    · rintro ⟨j, hj, hkeeps⟩
      cases hj
      exact hkeeps
  · refine iff_of_false (fun hsame => ?_) fun ⟨j, hj, _⟩ => ?_
    · have hlength := congrArg (fun t => t.nodes.length) hsame
      simp only [length_setProperties, hadds.length] at hlength
      omega
    · rw [hnew hzero] at hj
      cases hj

theorem undone_domain (config : IrqDomainConfig) :
    Undone s (RegisterCall.perform s (.domain config)) ↔ Finishes s (.domain config) := by
  have hrefused : ∀ {status : Status}, status ≠ .ok →
      Undone s (s.onBuses (status, s.buses)) := fun _ => .inr ⟨.refl s, rfl⟩
  have htree : ∀ {t : TreeState}, SameTables s { s with buses := { s.buses with tree := t } } ↔
      t = s.buses.tree :=
    fun {t} => ⟨fun h => h.tree, fun h => ⟨.refl _ _, fun _ => .refl _ _, fun _ => .refl _ _,
      .refl _ _, h⟩⟩
  unfold RegisterCall.perform radIrqDomainRegister Finishes
  dsimp only
  by_cases hvalid : config.Valid
  · rw [if_neg hvalid.1, if_neg hvalid.2.1, if_neg hvalid.2.2]
    cases hfind : findIrqDomainByPath s.buses.domains config.treePath with
    | some j =>
      exact iff_of_true (hrefused (by decide)) fun _ hnone => by cases hnone
    | none =>
      rw [Option.isSome_none, if_neg Bool.false_ne_true]
      by_cases hhead : config.treePath.head? = some 47
      · have hspec := ensureNodes_spec (t := s.buses.tree)
          (Nat.lt_succ_self config.treePath.length) hhead
        obtain ⟨hslot, hfull⟩ := allocateIrqDomain_new hvalid.1 hfind
        refine Iff.trans ?_ ⟨fun h _ _ _ => h, fun h => h hvalid rfl hhead⟩
        rw [Ensures] at hspec
        cases hensure : ensureNodePath s.buses.tree config.treePath with
        | mk i? t =>
          rw [ensureNodePath] at hensure
          rw [hensure] at hspec
          split_ifs at hspec ⊢ with hroom
          · obtain ⟨i, rfl⟩ := Option.isSome_iff_exists.1 hspec.1
            have hlast := setProperties_domain t i config
            dsimp only at hlast ⊢
            rw [hlast]
            cases hallocate : allocateIrqDomain s.buses.domains config with
            | mk j? domains =>
              rw [hallocate] at hslot hfull
              cases j? with
              | some j => exact iff_of_true (.inl rfl) (.inl (by rw [← hslot]; rfl))
              | none =>
                obtain rfl : domains = s.buses.domains := hfull hslot.symm
                rw [undone_iff_same (by simp [Runtime.onBuses]), ← hslot]
                refine htree.trans ((domain_noSlot hspec.2 ?_ ?_).trans (by simp))
                · intro hzero
                  obtain ⟨j, hj⟩ := Option.isSome_iff_exists.1 ((missingNodes_eq_zero _).1 hzero)
                  rw [ensureNodes_found hhead hj] at hensure
                  rw [hj, (Prod.mk.inj hensure).1]
                · intro hmissing
                  rw [Ne, missingNodes_eq_zero, Bool.not_eq_true, Option.isSome_eq_false_iff,
                    Option.isNone_iff_eq_none] at hmissing
                  exact hmissing
          · obtain rfl : i? = none := hspec.1
            rw [undone_iff_same (by simp [Runtime.onBuses]), ← hspec.2.eq_iff]
            exact htree
      · have hne : config.treePath = [] ∨ config.treePath.head? ≠ some 47 := .inr hhead
        rw [ensureNodePath, ensureNodes, if_pos hne]
        exact iff_of_true (hrefused (by decide)) fun _ _ h => absurd h hhead
  · refine iff_of_true ?_ fun h => absurd h hvalid
    split_ifs with hpath hsize hcells
    · exact hrefused (by decide)
    · exact hrefused (by decide)
    · exact hrefused (by decide)
    all_goals exact absurd ⟨hpath, hsize, hcells⟩ hvalid

/-! ## All registrations -/

/-- A registration is failure-atomic when no step fails after the first change. -/
theorem undone_iff (hstored : ∀ i < s.buses.tree.nodes.length,
    (s.buses.tree.node i).path.length < treeMaxPath) (call : RegisterCall) :
    Undone s (call.perform s) ↔ Finishes s call := by
  cases call with
  | framebuffer config setsMode registered => exact undone_framebuffer config setsMode registered
  | controller kind config registered answers =>
    exact undone_controller config registered answers hstored
  | driver kind spec answers => exact undone_driver spec answers hstored
  | domain config => exact undone_domain config

/-- A screen that becomes the primary one. -/
def screenConfig (name : String) : FramebufferConfig where
  name := some (text name)
  info :=
    { width := 64
      height := 64
      strideBytes := 256
      pixelFormat := pixelFormatXrgb8888
      pixels := some 0 }
  primary := true

/-- The controller of the temperature sensor, and two screens; the second one is primary. -/
def twoScreens : Runtime :=
  let s : Runtime :=
    { buses := Buses.next { tree := sensorTree } (.controllerRegister .i2c { busId := 0 } .ok fun _ => .ok) }
  let s := (radFramebufferRegisterEx s (screenConfig "/dev/fb0") false .ok).2
  (radFramebufferRegisterEx s (screenConfig "/dev/fb1") false .ok).2

theorem twoScreens_stored : ∀ i < twoScreens.buses.tree.nodes.length,
    (twoScreens.buses.tree.node i).path.length < treeMaxPath := by
  decide +kernel

/-- A driver stays whose probe fails. -/
theorem undone_twoScreens : ¬ Undone twoScreens
    (RegisterCall.perform twoScreens (.driver .i2c sensorDriver fun _ => .timeout)) := by
  intro hundone
  have hfinishes := (undone_iff twoScreens_stored _).1 hundone
  obtain ⟨-, hprobes⟩ := hfinishes (by decide +kernel) 0 (by decide +kernel)
  rcases hprobes [0, 1] 2 [] (by decide +kernel) (by decide +kernel) with
    hbound | ⟨j, hj, hdriver, -⟩ | hok
  · revert hbound
    decide +kernel
  · revert j
    decide +kernel
  · cases hok

/-- The device of a third screen is refused, and then the first screen is the primary one. -/
theorem not_undone_twoScreens :
    ¬ ∀ (s : Runtime) (call : RegisterCall), (∀ i < s.buses.tree.nodes.length,
      (s.buses.tree.node i).path.length < treeMaxPath) → Undone s (call.perform s) := by
  intro hall
  rcases hall twoScreens (.framebuffer (screenConfig "/dev/fb2") false .alreadyExists)
    twoScreens_stored with hok | ⟨-, hprimary⟩
  · revert hok
    decide +kernel
  · revert hprimary
    decide +kernel

end RadKernel.Overlay
