import RadKernel.Fat.Confined

/-!
# Runs of calls on one name

The volume is well formed and was just mounted; its root directory may have any number of
clusters. All calls open one name, or use the handles that this gave.
-/

namespace RadKernel.Fat

open Kernel Prog Buffer

variable {g : FatContext} {d d₀ : Disk} {name : List UInt8} {c j x : Nat} {l R : List Nat}
  {s s₀ t : FatState} {kept : Nat → Prop}

/-! ## Well-formed volumes -/

/-- Entry `j` of cluster `c` is that of a file, before the end of the directory. -/
inductive Listed (g : FatContext) (d : Disk) : List Nat → Nat → Nat → Prop
  | here {c j : Nat} {l : List Nat} : j < slots g → (∀ i < j, slot g d c i 0 ≠ 0) →
      Live (slot g d c j) → Listed g d (c :: l) c j
  | later {a c j : Nat} {l : List Nat} : (∀ i < slots g, slot g d a i 0 ≠ 0) →
      Listed g d l c j → Listed g d (a :: l) c j

theorem Listed.mem (h : Listed g d l c j) : c ∈ l ∧ j < slots g := by
  induction h with
  | here hj => exact ⟨by simp, hj⟩
  | later _ _ ih => exact ⟨by simp [ih.1], ih.2⟩

theorem FirstNamed.listed (h : FirstNamed g d name g.rootCluster j)
    (hR : ChainOf g d g.rootCluster R) : Listed g d R g.rootCluster j := by
  have hbefore : ∀ i < j, slot g d g.rootCluster i 0 ≠ 0 := fun i hi => (h.before i hi).1
  cases hR with
  | last => exact .here h.lt hbefore h.named.1
  | link => exact .here h.lt hbefore h.named.1

/-- A volume that was just mounted; `R` are the clusters of the root directory. -/
structure WellFormed (g : FatContext) (R : List Nat) (s : FatState) : Prop where
  layout : Layout g
  files : s.files = fun _ => {}
  copies : CopiesEqual g s.disk
  root : ChainOf g s.disk g.rootCluster R
  rootRange : ∀ c ∈ R, InRange g c
  chain : ∀ c j, Listed g s.disk R c j → (slot g s.disk c j).firstCluster ≠ 0 →
    ∃ l, ChainOf g s.disk (slot g s.disk c j).firstCluster l ∧ ∀ x ∈ l, InRange g x ∧ x ∉ R
  apart : ∀ c j c' j', Listed g s.disk R c j → Listed g s.disk R c' j' → (c, j) ≠ (c', j') →
    (slot g s.disk c j).firstCluster ≠ 0 → (slot g s.disk c' j').firstCluster ≠ 0 → ∀ l l',
    ChainOf g s.disk (slot g s.disk c j).firstCluster l →
    ChainOf g s.disk (slot g s.disk c' j').firstCluster l' → l.Disjoint l'

/-- What the calls on `name` leave as it is. The entry of the name, or the free entry that gets
it, is the one that may change. -/
structure Confined (g : FatContext) (name : List UInt8) (R : List Nat) (d₀ d : Disk) : Prop where
  root : ChainOf g d g.rootCluster R
  entries : ∀ c ∈ R, ∀ j < slots g, ¬(c = g.rootCluster ∧ Target g d₀ name j) →
    SameEntry (slot g d₀ c j) (slot g d c j)
  files : ∀ c j l, Listed g d₀ R c j → ¬(c = g.rootCluster ∧ Target g d₀ name j) →
    (slot g d₀ c j).firstCluster ≠ 0 → ChainOf g d₀ (slot g d₀ c j).firstCluster l →
    ChainOf g d (slot g d₀ c j).firstCluster l ∧ ∀ x ∈ l, ∀ sector, InCluster g x sector →
      d sector = d₀ sector

/-! ## What is kept -/

/-- The clusters of the root directory and of the files with other names. -/
def Others (g : FatContext) (name : List UInt8) (R : List Nat) (d : Disk) (x : Nat) : Prop :=
  x ∈ R ∨ ∃ c j l, Listed g d R c j ∧ ¬(c = g.rootCluster ∧ Target g d name j) ∧
    (slot g d c j).firstCluster ≠ 0 ∧ ChainOf g d (slot g d c j).firstCluster l ∧ x ∈ l

/-- The clusters of a chain are in use. -/
theorem links_ne_zero (hl : ChainOf g d c l) (hrange : ∀ x ∈ l, InRange g x) (hx : x ∈ l) :
    links g d x ≠ 0 := by
  intro hzero
  have hnext := hl.next_mem hx (by rw [hzero]; decide)
  rw [hzero] at hnext
  exact absurd (hrange 0 hnext).1 (by decide)

theorem WellFormed.others (hw : WellFormed g R s) (hx : Others g name R s.disk x) :
    links g s.disk x ≠ 0 := by
  rcases hx with hx | ⟨c, j, l, hlisted, -, hne, hl, hx⟩
  · exact links_ne_zero hw.root hw.rootRange hx
  · obtain ⟨l', hl', hall⟩ := hw.chain c j hlisted hne
    obtain rfl := hl.unique hl'
    exact links_ne_zero hl (fun y hy => (hall y hy).1) hx

theorem volume_single (hcopies : CopiesEqual g d) (hkept : ∀ y, kept y → links g d y ≠ 0)
    (hchain : c ≠ 0 → ∃ l, ChainOf g d c l ∧ ∀ y ∈ l, InRange g y ∧ ¬kept y) :
    Volume g kept d (fun r => if r = c then c else 0) d := by
  have howner : ∀ r, (if r = c then c else 0) ≠ 0 → r = c ∧ c ≠ 0 := by grind
  refine ⟨hcopies, ⟨fun o ho => ?_, fun o o' hne ho ho' => ?_, hkept⟩, fun _ _ => rfl,
    fun _ _ _ _ => rfl⟩
  · obtain ⟨rfl, hc⟩ := howner o ho
    obtain ⟨l, hl, hall⟩ := hchain hc
    rw [if_pos rfl]
    exact ⟨l, hl, fun y hy => ⟨(hall y hy).1, (hall y hy).2,
      links_ne_zero hl (fun z hz => (hall z hz).1) hy⟩⟩
  · exact absurd ((howner o ho).1.trans (howner o' ho').1.symm) hne

theorem WellFormed.namedChain (hw : WellFormed g R s)
    (hj : FirstNamed g s.disk name g.rootCluster j) (hne : (rootSlot g s.disk j).firstCluster ≠ 0) :
    ∃ l, ChainOf g s.disk (rootSlot g s.disk j).firstCluster l ∧
      ∀ y ∈ l, InRange g y ∧ ¬Others g name R s.disk y := by
  have hlisted := hj.listed hw.root
  obtain ⟨l, hl, hall⟩ := hw.chain _ _ hlisted hne
  refine ⟨l, hl, fun y hy => ⟨(hall y hy).1, ?_⟩⟩
  rintro (hR | ⟨c, j', l', hlisted', hother, hne', hl', hy'⟩)
  · exact (hall y hy).2 hR
  · have hpair : (g.rootCluster, j) ≠ (c, j') := by
      rintro heq
      cases heq
      exact hother ⟨rfl, .inl hj⟩
    exact hw.apart _ _ _ _ hlisted hlisted' hpair hne hne' l l' hl hl' hy hy'

theorem WellFormed.owns (hw : WellFormed g R s) (name : List UInt8) :
    ∃ first, Owns g name (Others g name R s.disk) first s := by
  have hunused : ∀ h, (s.files h).used ≠ true := by
    intro h
    rw [hw.files]
    exact Bool.false_ne_true
  have hkept : ∀ y, Others g name R s.disk y → links g s.disk y ≠ 0 := fun y hy => hw.others hy
  have hroot : ∃ l, ChainOf g s.disk g.rootCluster l ∧ ∀ c ∈ l, Others g name R s.disk c :=
    ⟨R, hw.root, fun c hc => .inl hc⟩
  by_cases hnamed : ∃ j, FirstNamed g s.disk name g.rootCluster j
  · obtain ⟨j, hj⟩ := hnamed
    refine ⟨_, hroot, fun r => ?_, volume_single hw.copies hkept (hw.namedChain hj), fun i hi => ?_,
      fun h hused => absurd hused (hunused h), fun h hused => absurd hused (hunused h)⟩
    · grind
    · obtain rfl := hi.unique hj
      exact .inr (if_pos rfl)
  · refine ⟨_, hroot, fun r => ?_, volume_single hw.copies hkept (fun hne => absurd rfl hne),
      fun i hi => absurd ⟨i, hi⟩ hnamed, fun h hused => absurd hused (hunused h),
      fun h hused => absurd hused (hunused h)⟩
    grind

/-! ## Runs -/

/-- The call opens the name, or uses a handle. -/
def OnName (name : List UInt8) : Call → Prop
  | .openPath path _ => makeShortName path = some name
  | _ => True

def NameStep (g : FatContext) (name : List UInt8) (s : FatState) (call : Call) (t : FatState) :
    Prop :=
  perform g s call = some t ∧ OnName name call

def SafeName (g : FatContext) (name : List UInt8) (s : FatState) : Call → Prop
  | .openPath _ flags => SafeOpen g s name flags
  | _ => True

def SafeNameStep (g : FatContext) (name : List UInt8) (s : FatState) (call : Call)
    (t : FatState) : Prop :=
  NameStep g name s call t ∧ SafeName g name s call

theorem Owns.step (hg : Layout g) {first : Nat → Nat} (howns : Owns g name kept first s)
    {call : Call} (hstep : SafeNameStep g name s call t) : Keeps g name kept s t := by
  obtain ⟨⟨hperform, hname⟩, hsafe⟩ := hstep
  cases call with
  | openPath path flags =>
    obtain ⟨r, t', hrun, hkeeps⟩ := howns.open hg hname hsafe
    simp only [perform, hrun, Option.map_some, Option.some.injEq] at hperform
    rwa [← hperform]
  | read h size =>
    obtain ⟨⟨r, t'⟩, hrun, rfl⟩ := Option.map_eq_some_iff.1 hperform
    cases r with
    | error e =>
      obtain rfl : t' = s := fatRead_triple.error rfl hrun
      exact howns.keeps
    | ok out =>
      obtain ⟨position, -, rfl⟩ := fatRead_triple.ok rfl hrun
      exact howns.moved position
  | write h bytes =>
    obtain ⟨⟨r, t'⟩, hrun, rfl⟩ := Option.map_eq_some_iff.1 hperform
    exact howns.write hg hrun
  | seek h offset origin =>
    obtain ⟨⟨r, t'⟩, hrun, rfl⟩ := Option.map_eq_some_iff.1 hperform
    cases r with
    | error e =>
      obtain rfl : t' = s := fatSeek_triple.error rfl hrun
      exact howns.keeps
    | ok u =>
      obtain ⟨position, rfl⟩ := fatSeek_triple.ok rfl hrun
      exact howns.moved position
  | close h =>
    obtain ⟨⟨r, t'⟩, hrun, rfl⟩ := Option.map_eq_some_iff.1 hperform
    exact howns.close hg hrun

theorem keeps_of_run (hw : WellFormed g R s₀) (hrun : Run (SafeNameStep g name) (· = s₀) t) :
    Keeps g name (Others g name R s₀.disk) s₀ t := by
  refine hrun.invariant ?_ ?_
  · rintro s rfl
    exact ⟨hw.owns name, OnlyTarget.refl _⟩
  · rintro s call t ⟨⟨first, howns⟩, honly⟩ hstep
    obtain ⟨howns', honly'⟩ := howns.step hw.layout hstep
    exact ⟨howns', honly.trans honly'⟩

/-- In a run of calls on one name, in which every entry that `fat_open` takes is in the first
cluster of the root directory and no chain is freed that a handle has, one entry changes, and
other files stay as they were. -/
theorem confined_of_run (hw : WellFormed g R s₀) (hrun : Run (SafeNameStep g name) (· = s₀) t) :
    Confined g name R s₀.disk t.disk := by
  obtain ⟨-, honly⟩ := keeps_of_run hw hrun
  refine ⟨hw.root.congr fun c hc => honly.link c (.inl hc), fun c hc j hj hother => ?_,
    fun c j l hlisted hother hne hl => ?_⟩
  · by_cases hroot : c = g.rootCluster
    · subst hroot
      exact honly.entry j hj fun ht => hother ⟨rfl, ht⟩
    · intro i _
      rw [slot, slot, entryAt, entryAt, honly.data c (.inl hc) hroot _ (slot_inCluster hj c)]
  · have hkept : ∀ x ∈ l, Others g name R s₀.disk x :=
      fun x hx => .inr ⟨c, j, l, hlisted, hother, hne, hl, hx⟩
    obtain ⟨l', hl', hall⟩ := hw.chain c j hlisted hne
    obtain rfl := hl.unique hl'
    refine ⟨hl.congr fun x hx => honly.link x (hkept x hx), fun x hx => ?_⟩
    refine honly.data x (hkept x hx) ?_
    rintro rfl
    exact (hall _ hx).2 hw.root.head_mem

/-! ## A directory of two clusters -/

/-- A volume with one file that has one cluster, and no other file that has any. -/
theorem wellFormed_single (hg : Layout g) (hfiles : s.files = fun _ => {})
    (hcopies : CopiesEqual g s.disk) (hroot : ChainOf g s.disk g.rootCluster R)
    (hrange : ∀ c ∈ R, InRange g c) (hx : InRange g x) (hlast : isEoc (links g s.disk x) = true)
    (hR : x ∉ R) (hfirst : ∀ c ∈ R, ∀ j < slots g, (slot g s.disk c j).firstCluster =
      if c = g.rootCluster ∧ j = 0 then x else 0) : WellFormed g R s := by
  have hown : ChainOf g s.disk x [x] := .last hlast
  have hvalue : ∀ c j, Listed g s.disk R c j → (slot g s.disk c j).firstCluster ≠ 0 →
      (c = g.rootCluster ∧ j = 0) ∧ (slot g s.disk c j).firstCluster = x := by
    intro c j hlisted hne
    obtain ⟨hc, hj⟩ := hlisted.mem
    grind
  refine ⟨hg, hfiles, hcopies, hroot, hrange, fun c j hlisted hne => ?_,
    fun c j c' j' hlisted hlisted' hpair hne hne' => ?_⟩
  · obtain ⟨-, heq⟩ := hvalue c j hlisted hne
    rw [heq]
    exact ⟨[x], hown, by simpa using ⟨hx, hR⟩⟩
  · obtain ⟨⟨rfl, rfl⟩, -⟩ := hvalue c j hlisted hne
    obtain ⟨⟨rfl, rfl⟩, -⟩ := hvalue c' j' hlisted' hne'
    exact absurd rfl hpair

theorem wellFormed_demoStart : WellFormed demoContext [2] demoStart := by
  refine wellFormed_single (x := 3) ⟨by decide, by decide, by decide⟩ rfl (by decide +kernel)
    (.last (by decide +kernel)) (by decide) (by decide) (by decide +kernel) (by decide) ?_
  have hall : ∀ c ∈ [2], ∀ j < 16, (slot demoContext demoDisk c j).firstCluster =
      if c = 2 ∧ j = 0 then 3 else 0 := by decide +kernel
  exact hall

theorem located_of_single (hend : isEoc (links g d g.rootCluster) = true) (flags : Nat) :
    Located g d name flags := by
  intro l hl
  obtain rfl := rootChain (s := { disk := d }) hend hl
  exact ⟨fun c j hmatch _ => List.mem_singleton.1 hmatch.mem,
    fun _ _ c j hspace => List.mem_singleton.1 hspace.mem⟩

/-- Three bytes are written to `B`. -/
theorem confined_writeB :
    ∃ t, writeCalls.foldlM (perform demoContext) demoStart = some t ∧
      Confined demoContext (letterName 1) [2] demoDisk t.disk := by
  have hsome : (writeCalls.foldlM (perform demoContext) demoStart).isSome = true := by
    decide +kernel
  obtain ⟨t, ht⟩ := Option.isSome_iff_exists.1 hsome
  refine ⟨t, ht, confined_of_run wellFormed_demoStart ?_⟩
  simp only [writeCalls, List.foldlM_cons, List.foldlM_nil, Option.pure_def, Option.bind_eq_bind,
    Option.bind_eq_some_iff, Option.some.injEq] at ht
  obtain ⟨t₁, hopen, t₂, hwrite, t₃, hclose, rfl⟩ := ht
  have hsafe : SafeOpen demoContext demoStart (letterName 1) vfsWrite :=
    ⟨located_of_single (by decide +kernel) _, fun h => h.1 rfl⟩
  have hname : makeShortName [66] = some (letterName 1) := by decide
  have hrun : Run (SafeNameStep demoContext (letterName 1)) (· = demoStart) demoStart := .start rfl
  exact ((hrun.step ⟨⟨hopen, hname⟩, hsafe⟩).step ⟨⟨hwrite, trivial⟩, trivial⟩).step
    ⟨⟨hclose, trivial⟩, trivial⟩

/-- The first cluster of the root directory has the files `A` to `P`, of which `A` has cluster 4;
`Q` is in the second one. -/
def longDisk : Disk := fun s =>
  if s = 1 ∨ s = 2 then
    store (fun _ => 0) 8 (le32Bytes 3 ++ le32Bytes fatEoc ++ le32Bytes fatEoc)
  else if s = 3 then fun i =>
    if i / 32 = 0 then (newEntry (letterName 0)).setFirstCluster 4 (i % 32)
    else newEntry (letterName (i / 32)) (i % 32)
  else if s = 4 then fun i => if i / 32 = 0 then newEntry (letterName 16) (i % 32) else 0
  else fun _ => 0

def longStart : FatState := { disk := longDisk }

theorem wellFormed_longStart : WellFormed demoContext [2, 3] longStart := by
  refine wellFormed_single (x := 4) ⟨by decide, by decide, by decide⟩ rfl (by decide +kernel)
    (.link (by decide +kernel) ?_) (by decide) (by decide) (by decide +kernel) (by decide) ?_
  · exact (show links demoContext longDisk 2 = 3 by decide +kernel) ▸ .last (by decide +kernel)
  · have hall : ∀ c ∈ [2, 3], ∀ j < 16, (slot demoContext longDisk c j).firstCluster =
        if c = 2 ∧ j = 0 then 4 else 0 := by decide +kernel
    exact hall

/-- `Q` is opened for reading and closed. -/
def farCalls : List Call := [.openPath [81] vfsRead, .close firstFile]

/-- Then `A`, which has the same place in the first cluster, has no chain any more. -/
theorem not_confined_farCalls :
    ¬ ∀ g name R s₀ t, WellFormed g R s₀ → Run (NameStep g name) (· = s₀) t →
      Confined g name R s₀.disk t.disk := by
  intro hall
  have hafter : (farCalls.foldlM (perform demoContext) longStart).map
      (fun t => slot demoContext t.disk 2 0 26) = some 0 := by decide +kernel
  obtain ⟨t, ht, hbyte⟩ := Option.map_eq_some_iff.1 hafter
  simp only [farCalls, List.foldlM_cons, List.foldlM_nil, Option.pure_def, Option.bind_eq_bind,
    Option.bind_eq_some_iff, Option.some.injEq] at ht
  obtain ⟨t₁, hopen, t₂, hclose, rfl⟩ := ht
  have hname : makeShortName [81] = some (letterName 16) := by decide
  have hstart : Run (NameStep demoContext (letterName 16)) (· = longStart) longStart := .start rfl
  have hrun := (hstart.step ⟨hopen, hname⟩).step ⟨hclose, trivial⟩
  have hother : ¬Target demoContext longDisk (letterName 16) 0 := by
    rintro (h | ⟨h, -⟩)
    · have hhead := h.named.head
      revert hhead
      decide +kernel
    · have hfree := h.free
      revert hfree
      unfold Free
      decide +kernel
  have hsame := (hall _ _ _ _ _ wellFormed_longStart hrun).entries 2 (by decide) 0 (by decide)
    (fun h => hother h.2) 26 (by decide)
  rw [hbyte] at hsame
  revert hsame
  decide +kernel

end RadKernel.Fat
