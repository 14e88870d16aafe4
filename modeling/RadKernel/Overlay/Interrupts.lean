import RadKernel.Lib.Walk
import RadKernel.Overlay.Pass
import RadKernel.Overlay.PassStatus

/-!
# Interrupts of the devices

`find_interrupt_parent_node` goes from a node to the node that has the name of its parent. The names
are free text, so that this may come back to a node, and then it goes on for ever. Where it does not,
the walk ends after as many nodes as the tree has, also in the passes that bind drivers, since they
change no name.
-/

namespace RadKernel.Overlay

variable {kind : BusKind} {t : TreeState} {s : Buses} {answers : Nat → Status} {i j rounds : Nat}
  {domain : IrqDomain} {r : IrqResource}

/-! ## The walk -/

/-- The node that a round of `find_interrupt_parent_node` goes on to. -/
def parentStep (t : TreeState) (i : Nat) : Option Nat :=
  if (stringOf? t i "interrupt-parent").isSome ∨ (t.node i).parent = [] then none
  else findNode t (t.node i).parent

/-- The node that the walk from `i` has come to after some rounds. -/
def lookedAt (t : TreeState) (i rounds : Nat) : Option Nat :=
  (fun node? => node?.bind (parentStep t))^[rounds] (some i)

/-- The walk from `i` comes to a node twice. -/
def Circular (t : TreeState) (i : Nat) : Prop :=
  ∃ m n j, m < n ∧ lookedAt t i m = some j ∧ lookedAt t i n = some j

theorem lookedAt_succ (t : TreeState) (i rounds : Nat) :
    lookedAt t i (rounds + 1) = (lookedAt t i rounds).bind (parentStep t) :=
  Function.iterate_succ_apply' ..

theorem lookedAt_step (t : TreeState) (i rounds : Nat) :
    lookedAt t i (rounds + 1) = (parentStep t i).bind fun j => lookedAt t j rounds := by
  rw [lookedAt, Function.iterate_succ_apply]
  cases hstep : parentStep t i with
  | none =>
    rw [Option.bind_some, hstep]
    exact Function.iterate_fixed rfl rounds
  | some j =>
    rw [Option.bind_some, hstep]
    rfl

theorem lookedAt_self (h : parentStep t i = some i) (rounds : Nat) : lookedAt t i rounds = some i :=
  Function.iterate_fixed h rounds

/-- The walk comes back when it has ended. -/
theorem interruptParent_eq_none (t : TreeState) (i rounds : Nat) :
    interruptParent t rounds i = none ↔ lookedAt t i rounds ≠ none := by
  induction rounds generalizing i with
  | zero => simp [interruptParent, lookedAt]
  | succ rounds ih =>
    rw [lookedAt_step, interruptParent, parentStep]
    cases stringOf? t i "interrupt-parent" with
    | some parent => simp
    | none =>
      by_cases hparent : (t.node i).parent = []
      · simp [hparent]
      · cases hfind : findNode t (t.node i).parent with
        | none => simp [hparent]
        | some j => simpa [hparent] using ih j

/-- A walk that does not come to a node twice ends. -/
theorem interruptParent_ne_none (h : ¬Circular t i) :
    interruptParent t (t.nodes.length + 1) i ≠ none := by
  rw [Ne, interruptParent_eq_none, not_not]
  by_contra hlong
  have hearlier : ∀ k ≤ t.nodes.length + 1, lookedAt t i k ≠ none := by
    intro k hk hnone
    refine hlong ?_
    obtain ⟨more, hmore⟩ := Nat.exists_eq_add_of_le' hk
    rw [hmore, lookedAt, Function.iterate_add_apply]
    unfold lookedAt at hnone
    rw [hnone]
    exact Function.iterate_fixed rfl more
  obtain ⟨m, n, hlt, hn, hsame⟩ := @Walk.comes_back _
    (fun node? => node?.bind (parentStep t)) (some i)
    ((Finset.range t.nodes.length).image some) fun k hk => by
      rw [Finset.card_image_of_injective _ (Option.some_injective _), Finset.card_range] at hk
      obtain ⟨j, hj⟩ := Option.ne_none_iff_exists'.1 (hearlier (k + 1) (by omega))
      refine Finset.mem_image.2 ⟨j, ?_, hj.symm⟩
      rw [lookedAt_succ, Option.bind_eq_some_iff] at hj
      obtain ⟨_, -, hstep⟩ := hj
      unfold parentStep at hstep
      split_ifs at hstep
      exact Finset.mem_range.2 (findNode_lt hstep)
  rw [Finset.card_image_of_injective _ (Option.some_injective _), Finset.card_range] at hn
  obtain ⟨j, hj⟩ := Option.ne_none_iff_exists'.1 (hearlier (n + 1) (by omega))
  exact h ⟨m + 1, n + 1, j, by omega, hsame.trans hj, hj⟩

/-! ## Resources -/

/-- A resource is one of a domain; a domain without a count of lines puts no bound on them. -/
structure OfDomain (domain : IrqDomain) (r : IrqResource) : Prop where
  line : domain.lineCount ≠ 0 → r.line < domain.lineCount
  irq : domain.interruptBase + r.line < 2 ^ 32 → r.irq = domain.interruptBase + r.line
  name : r.domain = domain.name
  path : r.controllerPath = domain.treePath

variable {capacity : Nat}

theorem ofDomain_of_mem {cells : List Nat}
    (h : r ∈ irqResources domain rounds capacity cells) : OfDomain domain r := by
  induction rounds generalizing capacity cells with
  | zero => cases h
  | succ rounds ih =>
    rw [irqResources] at h
    dsimp only at h
    split_ifs at h with hdone hline
    · cases h
    · exact ih h
    all_goals
      rcases List.mem_cons.1 h with rfl | hrest
      · exact ⟨fun hcount => by simpa [hcount] using hline, Nat.mod_eq_of_lt, rfl, rfl⟩
      · exact ih hrest

theorem resolveIrqResources_ofDomain {domains : Nat → IrqDomain}
    (h : r ∈ (resolveIrqResources t domains i capacity).1) :
    ∃ j, OfDomain ((resolveIrqResources t domains i capacity).2 j) r := by
  unfold resolveIrqResources at h ⊢
  cases hinterrupts : t.valueOf? i (text "interrupts") treePropU32Array <;>
    simp only [hinterrupts] at h ⊢
  · cases h
  split_ifs at h ⊢
  · cases h
  cases hparent : findInterruptParentNode t domains i <;> simp only [hparent] at h ⊢
  · cases h
  next parent =>
    cases hfind : findIrqDomainByPath domains (t.node parent).path <;> simp only [hfind] at h ⊢
    · split_ifs at h ⊢
      · cases h
      · cases hbind : findIrqDomainByPath (bindIrqDomainNode t domains parent).2
          (t.node parent).path <;> simp only [hbind] at h ⊢
        · cases h
        · split_ifs at h
          · cases h
          · exact ⟨_, ofDomain_of_mem h⟩
    · split_ifs at h
      · cases h
      · exact ⟨_, ofDomain_of_mem h⟩

/-- The walk from a node ends, and the resources that are found for it belong to their domains. -/
structure Resolves (s : Buses) (i : Nat) : Prop where
  walk : interruptParent s.tree (s.tree.nodes.length + 1) i ≠ none
  resources (capacity : Nat) : ∀ r ∈ (resolveIrqResources s.tree s.domains i capacity).1,
    ∃ j, OfDomain ((resolveIrqResources s.tree s.domains i capacity).2 j) r

theorem resolves (h : ¬Circular s.tree i) : Resolves s i :=
  ⟨interruptParent_ne_none h, fun _ _ => resolveIrqResources_ofDomain⟩

/-! ## Passes -/

theorem unboundTree_bindNode (kind : BusKind) (s : Buses) (i : Nat) (answer : Status) :
    unboundTree (bindNode kind s i answer).2.tree = unboundTree s.tree := by
  unfold bindNode describeDevice
  grind [unboundTree_setBound, Buses.setBus]

theorem circular_congr {t' : TreeState} (h : unboundTree t = unboundTree t') (i : Nat) :
    Circular t i ↔ Circular t' i := by
  have hstep : ∀ t, parentStep (unboundTree t) = parentStep t := by
    intro t
    funext i
    simp only [parentStep, stringOf?_unboundTree, node_unboundTree, findNode_unboundTree, unboundNode]
  have hsame : parentStep t = parentStep t' := by rw [← hstep, h, hstep]
  simp only [Circular, lookedAt, hsame]

/-- Resolution at each node of a pass, in the state in which the pass comes to it. -/
def PassResolves (kind : BusKind) (answers : Nat → Status) : List Nat → Buses → Prop
  | [], _ => True
  | i :: rest, s => Resolves s i ∧ PassResolves kind answers rest (bindNode kind s i (answers i)).2

theorem passResolves_of (h : ∀ i, ¬Circular s.tree i) (kind : BusKind) (answers : Nat → Status)
    (nodes : List Nat) : PassResolves kind answers nodes s := by
  induction nodes generalizing s with
  | nil => trivial
  | cons i rest ih =>
    refine ⟨resolves (h i), ih fun j => ?_⟩
    rw [circular_congr (unboundTree_bindNode kind s i (answers i))]
    exact h j

/-- Resolution at every node, and in the passes over all of them. -/
theorem passResolves (h : ∀ i, ¬Circular s.tree i) :
    (∀ i, Resolves s i) ∧ ∀ (kind : BusKind) (answers : Nat → Status),
      PassResolves kind answers (List.range s.tree.nodes.length) s :=
  ⟨fun i => resolves (h i), fun kind answers => passResolves_of h kind answers _⟩

/-! ## Overlays with an interrupt controller -/

/-- The root is an interrupt controller with the base and the count, `/a` has the text at `parent` as
its parent, and `/d` uses line 7. -/
def interruptOverlay (parent base count crc : Nat) : List UInt8 :=
  let records (rows : List (List Nat)) : List UInt8 := rows.flatten.flatMap (Words.encode 4)
  text "RADO" ++ [1, 0, 0, 0] ++ records [[88, 3, 5, 4, 0, crc]] ++
    ["/", "/a", "/d", "interrupts", "interrupt-controller", "#interrupt-cells", "interrupt-base",
      "interrupt-count"].flatMap (fun name => text name ++ [0]) ++
    records [[0, 1, 1, 0, 4], [2, 3, parent, 0, 0], [5, 6, 1, 4, 1],
      [0, 19, treePropBool, 1, 0], [0, 40, treePropU32, 1, 0], [0, 57, treePropU32, base, 0],
      [0, 72, treePropU32, count, 0], [2, 8, treePropU32Array, 0, 4], [7]]

def loadedBuses (bytes : List UInt8) : Buses :=
  (bindIrqDomainsFromTree { tree := (radOverlayLoadMemory radOverlayReset bytes []).2 }).2

theorem passResolves_interruptOverlay :
    PassResolves .i2c (fun _ => .ok)
      (List.range (loadedBuses (interruptOverlay 1 32 16 2353623901)).tree.nodes.length)
      (loadedBuses (interruptOverlay 1 32 16 2353623901)) := by
  set s := loadedBuses (interruptOverlay 1 32 16 2353623901) with hs
  have hend : ∀ i, parentStep s.tree i = none := by
    intro i
    by_cases hi : i < 3
    · have hfirst : ∀ i < 3, parentStep s.tree i = none := by decide +kernel
      exact hfirst i hi
    · have hlength : s.tree.nodes.length = 3 := by decide +kernel
      have hnode : s.tree.node i = {} := List.getD_eq_default _ _ (by omega)
      simp [parentStep, hnode]
  refine (passResolves fun i => ?_).2 .i2c _
  rintro ⟨m, n, j, hlt, -, hn⟩
  obtain ⟨n, rfl⟩ := Nat.exists_eq_add_of_lt hlt
  rw [lookedAt_step, hend] at hn
  cases hn

/-- The walk from `/a` goes from `/a` to `/a`, and the line of `/d` is not one of 0 lines. -/
theorem not_resolves_interruptOverlay :
    let bytes := interruptOverlay 2 (2 ^ 32 - 1) 0 3086101087
    let s := loadedBuses bytes
    (radOverlayLoadMemory radOverlayReset bytes []).1 = .ok ∧
      (∀ rounds, interruptParent s.tree rounds 1 = none) ∧
      ∃ r ∈ (resolveIrqResources s.tree s.domains 2 irqMaxResources).1,
        r.controllerPath = (s.domains 0).treePath ∧ (s.domains 0).lineCount ≤ r.line ∧
          r.irq ≠ (s.domains 0).interruptBase + r.line := by
  refine ⟨by decide +kernel, fun rounds => ?_, by decide +kernel⟩
  have hself : parentStep (loadedBuses (interruptOverlay 2 (2 ^ 32 - 1) 0 3086101087)).tree 1 =
      some 1 := by decide +kernel
  rw [interruptParent_eq_none, lookedAt_self hself]
  exact Option.some_ne_none 1

end RadKernel.Overlay
