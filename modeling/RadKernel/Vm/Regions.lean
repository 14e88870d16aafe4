import RadKernel.Kernel.State
import RadKernel.Vm.Capacity
import RadKernel.Vm.SharedMemory

/-!
# Regions of a program

The heap, the mappings of shared memory and the stack of a program grow by pages, each from its own
call: `x86_sys_brk`, `x86_sys_mmap` and the fault below the stack. The addresses they may take
overlap, and none of them looks whether a page is already there.
-/

namespace RadKernel.Vm

open List

/-! ## The calls -/

def userMmapBase : Nat := 0x60000000
def userMmapLimit : Nat := 0x70000000
def userStackSize : Nat := 0x100000
def userStackBottom : Nat := userStackTop - userStackSize
def userBrkLimit : Nat := userStackBottom - pageSize

/-- `align_up` to pages, in 64 bits. -/
def alignUp (value : Nat) : Nat := (value + (pageSize - 1)) % 2 ^ 64 / pageSize * pageSize

/-- An object of shared memory as `rad_shm_get_info` and `rad_shm_get_page` show it; a page 0 is one
that was not set. -/
structure SharedObject where
  byteSize : Nat
  pages : List Nat
  deriving DecidableEq, Repr

def SharedObject.getPage (object : SharedObject) (index : Nat) : Except Status Nat :=
  match object.pages[index]? with
  | none | some 0 => .error .invalidArgument
  | some page => .ok page

/-- `X86UserProcess`: the fields that the calls use. `shm` is what its descriptors stand for. -/
structure UserProcess (κ : Type) where
  vm : VmState κ
  space : κ
  brkBase : Nat
  brkCurrent : Nat
  brkLimit : Nat := userBrkLimit
  nextMmap : Nat := userMmapBase
  shm : Nat → Option SharedObject := fun _ => none

section

variable {κ : Type} [DecidableEq κ]

namespace UserProcess

/-- The break moves up. -/
def grows (u : UserProcess κ) (requested : Nat) : Prop :=
  requested ≠ 0 ∧ u.brkBase ≤ alignUp requested ∧ alignUp requested ≤ u.brkLimit ∧
    u.brkCurrent < alignUp requested

/-- `x86_sys_brk`. -/
def sysBrk (u : UserProcess κ) (requested : Nat) : Nat × UserProcess κ :=
  if requested = 0 then (u.brkCurrent, u)
  else
    let newBreak := alignUp requested
    if newBreak < u.brkBase ∨ u.brkLimit < newBreak then (u.brkCurrent, u)
    else if newBreak ≤ u.brkCurrent then (newBreak, { u with brkCurrent := newBreak })
    else
      let (vm, done) := u.vm.after <| (addresses u.brkCurrent newBreak pageSize).forM fun va =>
        mapNewPage u.space va true fun _ => 0
      if done then (newBreak, { u with vm, brkCurrent := newBreak })
      else (u.brkCurrent, { u with vm })

/-- The checks of `x86_sys_mmap`: the object, where it goes, and how many pages of it. -/
def mmapRange (u : UserProcess κ) (length flags fd offset : Nat) :
    Except Status (SharedObject × Nat × Nat) :=
  if length = 0 ∨ offset ≠ 0 ∨ flags.testBit 0 = false then .error .notSupported
  else
    match u.shm fd with
    | none => .error .notFound
    | some object =>
      if object.byteSize < length then .error .invalidArgument
      else
        let mappingSize := alignUp length
        let va := max (alignUp u.nextMmap) userMmapBase
        if (userMmapLimit + 2 ^ 64 - va) % 2 ^ 64 < mappingSize then .error .noMemory
        else if object.pages.length < mappingSize / pageSize then .error .invalidArgument
        else .ok (object, va, mappingSize / pageSize)

/-- The loop of `x86_sys_mmap`. -/
def mapObject (space : κ) (object : SharedObject) (va : Nat) (writable : Bool) :
    List Nat → VmState κ → Status × VmState κ
  | [], s => (.ok, s)
  | i :: indices, s =>
    match object.getPage i with
    | .error status => (status, s)
    | .ok page =>
      match s.after (mapSharedPage space (va + i * pageSize) page writable) with
      | (t, true) => mapObject space object va writable indices t
      | (t, false) => (.noMemory, t)

/-- `x86_sys_mmap`. -/
def sysMmap (u : UserProcess κ) (length prot flags fd offset : Nat) : Int × UserProcess κ :=
  match u.mmapRange length flags fd offset with
  | .error status => (status.code, u)
  | .ok (object, va, pages) =>
    match mapObject u.space object va (prot.testBit 1) (List.range pages) u.vm with
    | (.ok, vm) => (va, { u with vm, nextMmap := va + pages * pageSize })
    | (status, vm) => (status.code, { u with vm })

/-- The program uses an address where there is no page. -/
def fault (u : UserProcess κ) (address : Nat) (write : Bool) : Bool × UserProcess κ :=
  let (vm, done) := u.vm.after (handlePageFault u.space address false write true)
  (done, { u with vm })

end UserProcess

inductive Call where
  | brk (requested : Nat)
  | mmap (length prot flags fd offset : Nat)
  | fault (address : Nat) (write : Bool)
  deriving DecidableEq, Repr

namespace UserProcess

/-- Whether the call did what was asked, and the state after it. There is no such fault when there
is a page. -/
def call (u : UserProcess κ) : Call → Bool × UserProcess κ
  | .brk requested =>
    let (result, t) := u.sysBrk requested
    (requested = 0 || result = alignUp requested, t)
  | .mmap length prot flags fd offset =>
    let (result, t) := u.sysMmap length prot flags fd offset
    (0 ≤ result, t)
  | .fault address write =>
    if (u.vm.walkUserLeaf u.space address).isSome then (true, u) else u.fault address write

abbrev step (u : UserProcess κ) (c : Call) : UserProcess κ := (u.call c).2

end UserProcess

end

/-! ## Memory for several pages -/

variable {κ : Type} {s t : VmState κ} {held : Nat → Nat} {pinned : Nat → Prop} {k k' : κ}
  {π : List Nat} {m n p va va' cost : Nat} {vas : List Nat} {e : Pte}

/-- The paths of the tables on the way to the address. -/
def ways (virtualAddress : Nat) : List (List Nat) :=
  (List.range 3).map fun n => (path virtualAddress).drop n

/-- The tables that have to be added on the way to some addresses. -/
def VmState.lacking (s : VmState κ) (k : κ) (addresses : List Nat) : Finset (List Nat) :=
  (addresses.flatMap ways).toFinset.filter fun π => s.table k π = none

theorem ways_eq (va : Nat) : ways va = [path va,
    [tableIndex va 2, tableIndex va 3], [tableIndex va 3]] := rfl

theorem mem_ways : π ∈ ways va ↔ π ≠ [] ∧ π <:+ path va := by
  simp only [ways_eq, path, mem_cons, not_mem_nil, or_false, suffix_cons_iff, suffix_nil]
  constructor
  · rintro (rfl | rfl | rfl) <;> simp
  · rintro ⟨hne, rfl | rfl | rfl | rfl⟩ <;> simp_all

theorem mem_lacking : π ∈ s.lacking k vas ↔ (∃ va ∈ vas, π ∈ ways va) ∧ s.table k π = none := by
  rw [VmState.lacking, Finset.mem_filter, mem_toFinset, mem_flatMap]

theorem card_lacking_one (s : VmState κ) (k : κ) (va : Nat) :
    (s.lacking k [va]).card = s.missing k va := by
  have hnodup : (ways va).Nodup := by simp [ways_eq, path]
  have hset : s.lacking k [va] = ((ways va).filter fun π => s.table k π = none).toFinset := by
    ext π
    simp [mem_lacking]
  rw [hset, toFinset_card_of_nodup (hnodup.filter _), ← countP_eq_length_filter, ways,
    countP_map, VmState.missing]
  refine countP_congr fun n _ => ?_
  simp [Option.isNone_iff_eq_none]

/-- There are pages for all of them, `cost` for each one and one for each table, and all of these
can be recorded. -/
def VmState.Affords (s : VmState κ) (k : κ) (cost : Nat) (vas : List Nat) : Prop :=
  cost * vas.length + (s.lacking k vas).card ≤ s.freePages ∧
    vas.length + (s.lacking k vas).card ≤ s.room k

/-- There are too few pages for one, or the tables for it cannot be recorded. -/
def VmState.Refuses (s : VmState κ) (k : κ) (cost virtualAddress : Nat) : Prop :=
  s.freePages < s.missing k virtualAddress + cost ∨ s.room k < s.missing k virtualAddress

theorem VmState.Affords.head (h : s.Affords k cost (va :: vas)) :
    s.missing k va + cost ≤ s.freePages ∧ s.missing k va + 1 ≤ s.room k := by
  obtain ⟨hfree, hroom⟩ := h
  have hle : s.missing k va ≤ (s.lacking k (va :: vas)).card := by
    rw [← card_lacking_one]
    refine Finset.card_le_card fun π hπ => ?_
    rw [mem_lacking] at hπ ⊢
    grind
  rw [length_cons, Nat.mul_add] at hfree
  rw [length_cons] at hroom
  constructor <;> omega

/-- Pages that are mapped stay, and so do the roots. -/
structure Keeping (s t : VmState κ) : Prop where
  leaf : ∀ k va e, va < 2 ^ 48 → s.leaf k va = some e → t.leaf k va = some e
  roots : ∀ k, (t.spaces k).pml4 = (s.spaces k).pml4

theorem Keeping.refl (s : VmState κ) : Keeping s s := ⟨fun _ _ _ _ h => h, fun _ => rfl⟩

theorem Keeping.trans {u : VmState κ} (h : Keeping s t) (h' : Keeping t u) : Keeping s u :=
  ⟨fun k va e hva he => h'.leaf k va e hva (h.leaf k va e hva he),
    fun k => (h'.roots k).trans (h.roots k)⟩

variable [DecidableEq κ]

/-- All tables on the way to the address are there. -/
theorem Installs.table_ways (g : Installs k va e m n s t) (hπ : π ∈ ways va) :
    t.table k π ≠ none := by
  have hway := g.way
  intro hnone
  rw [ways_eq] at hπ
  simp only [mem_cons, not_mem_nil, or_false] at hπ
  rcases hπ with rfl | rfl | rfl
  · exact hway hnone
  · exact hway (table_of_none hnone _)
  · exact hway (table_of_none (table_of_none hnone _) _)

/-- The tables that were added for one address do not have to be added for the others. -/
theorem Installs.lacking (g : Installs k va e m n s t) (vas : List Nat) :
    (s.lacking k (va :: vas)).card = s.missing k va + (t.lacking k vas).card := by
  have hcons : s.lacking k (va :: vas) = s.lacking k vas ∪ s.lacking k [va] := by
    ext π
    simp only [Finset.mem_union, mem_lacking, mem_cons, not_mem_nil, or_false]
    grind
  have hrest : t.lacking k vas = s.lacking k vas \ s.lacking k [va] := by
    ext π
    simp only [Finset.mem_sdiff, mem_lacking, mem_cons, not_mem_nil, or_false]
    by_cases hmem : π ∈ ways va
    · have hsome := g.table_ways hmem
      grind
    · have hsame : (∃ va ∈ vas, π ∈ ways va) → t.table k π = s.table k π := by
        rintro ⟨va', -, hva'⟩
        obtain ⟨hne, hsuffix⟩ := mem_ways.1 hva'
        have hlen := hsuffix.length_le
        rw [length_path] at hlen
        exact g.other k π hlen fun _ hend => hmem (mem_ways.2 ⟨hne, hend⟩)
      grind
  rw [hcons, hrest, ← card_lacking_one, ← Finset.card_sdiff_add_card, Nat.add_comm]

theorem Installs.affords (g : Installs k va e (s.missing k va) (s.missing k va + cost) s t)
    (h : s.Affords k cost (va :: vas)) : t.Affords k cost vas := by
  obtain ⟨hfree, hroom⟩ := h
  have hcard := g.lacking vas
  have := g.free
  have := g.room
  rw [length_cons, Nat.mul_add] at hfree
  rw [length_cons] at hroom
  constructor <;> omega

/-- A page that is mapped where none is. -/
theorem Installs.keeping (g : Installs k va e m n s t) (hnone : s.leaf k va = none) :
    Keeping s t := by
  refine ⟨fun k' va' e' hva' he' => ?_, g.roots⟩
  rw [g.leaf k' va' hva', if_neg, he']
  rintro ⟨rfl, hpage⟩
  rw [leaf_page s k' hpage, hnone] at he'
  cases he'

/-! ## What a call maps -/

omit [DecidableEq κ] in
theorem walkUserLeaf_page (s : VmState κ) (k : κ) (h : va / 4096 = va' / 4096) :
    s.walkUserLeaf k va = s.walkUserLeaf k va' := by
  simp only [VmState.walkUserLeaf, tableIndex_eq, h, inUser_page h]

variable [Fintype κ]

section
variable (h : Sound held pinned s)
include h

/-- Pages are mapped one by one. -/
theorem mapNewPages (hroot : (s.spaces k).pml4 ≠ 0)
    (hin : ∀ va ∈ vas, inUser va = true) (hapart : vas.Pairwise fun a b => a / 4096 ≠ b / 4096)
    (hnone : ∀ va ∈ vas, s.leaf k va = none) (hafford : s.Affords k 1 vas) :
    ∃ t, (vas.forM fun va => mapNewPage k va true fun _ => 0) s = some (.ok ⟨⟩, t) ∧
      Sound held pinned t ∧ Keeping s t ∧
      t.freePages + (vas.length + (s.lacking k vas).card) = s.freePages ∧
      t.room k + (vas.length + (s.lacking k vas).card) = s.room k ∧
      ∀ k' va', va' < 2 ^ 48 → (∀ va ∈ vas, va' / 4096 ≠ va / 4096) →
        t.leaf k' va' = s.leaf k' va' := by
  induction vas generalizing s with
  | nil => exact ⟨s, rfl, h, .refl s, Nat.add_zero _, Nat.add_zero _, fun _ _ _ _ => rfl⟩
  | cons va vas ih =>
    obtain ⟨hfirst, hrest⟩ := List.pairwise_cons.1 hapart
    obtain ⟨hfree, hroom⟩ := hafford.head
    obtain ⟨p, t, run, ht, g, -⟩ | ⟨t, n, -, -, -, hfull⟩ :=
      mapNewPage_spec (k := k) h (hin va (by simp)) true (fun _ => 0) (by omega)
    swap
    · have := hfull hroot
      omega
    have hkeeping := g.keeping (hnone va (by simp))
    have hthere : ∀ va' ∈ vas, t.leaf k va' = none := fun va' hva' => by
      rw [g.leaf k va' (inUser.lt (hin va' (by simp [hva']))), if_neg, hnone va' (by simp [hva'])]
      exact fun hsame => hfirst va' hva' hsame.2.symm
    obtain ⟨u, runs, hu, hkeeping', hfree', hroom', hother⟩ := ih ht (by rwa [g.roots])
      (fun va' hva' => hin va' (by simp [hva'])) hrest hthere (g.affords hafford)
    have hcard := g.lacking vas
    have := g.free
    have := g.room
    refine ⟨u, ?_, hu, hkeeping.trans hkeeping', by rw [length_cons]; omega,
      by rw [length_cons]; omega, fun k' va' hlt hne => ?_⟩
    swap
    · rw [hother k' va' hlt fun va'' hva'' => hne va'' (by simp [hva'']), g.leaf k' va' hlt, if_neg]
      exact fun hsame => hne va (by simp) hsame.2
    exact (Prog.forM_cons_of_ok (f := fun va => mapNewPage k va true fun _ => 0) run).trans runs

/-- There is no page for it, and nothing is mapped. -/
theorem mapNewPage_refused (hin : inUser va = true) (hrefuse : s.Refuses k 1 va) :
    ∃ t, mapNewPage k va true (fun _ => 0) s = some (.error (), t) ∧ Sound held pinned t ∧
      (∀ k va, t.leaf k va = s.leaf k va) ∧ ∀ k, (t.spaces k).pml4 = (s.spaces k).pml4 := by
  rw [VmState.Refuses] at hrefuse
  obtain ⟨p, t, -, -, g, -⟩ | ⟨t, n, run, ht, g, -⟩ :=
    mapNewPage_spec (k := k) h hin true (fun _ => 0) (by omega)
  · have := g.free
    have := g.room
    omega
  · exact ⟨t, run, ht, g.leaf, g.roots⟩

theorem mapObject_maps {object : SharedObject} {indices : List Nat}
    (hroot : (s.spaces k).pml4 ≠ 0) (writable : Bool)
    (hin : ∀ i ∈ indices, inUser (va + i * pageSize) = true) (hapart : indices.Nodup)
    (hnone : ∀ i ∈ indices, s.leaf k (va + i * pageSize) = none)
    (hafford : s.Affords k 0 (indices.map fun i => va + i * pageSize))
    (hpages : ∀ i ∈ indices, ∃ p, object.getPage i = .ok p ∧ pinned p)
    (hwrap : ∀ p, pinned p →
      s.pageRefs p + (indices.countP fun i => object.getPage i = .ok p) < 2 ^ 16) :
    ∃ t, UserProcess.mapObject k object va writable indices s = (.ok, t) ∧ Sound held pinned t ∧
      Keeping s t := by
  induction indices generalizing s with
  | nil => exact ⟨s, rfl, h, .refl s⟩
  | cons i indices ih =>
    obtain ⟨hfirst, hrest⟩ := List.nodup_cons.1 hapart
    rw [map_cons] at hafford
    obtain ⟨hfree, hroom⟩ := hafford.head
    obtain ⟨p, hp, hpinned⟩ := hpages i (by simp)
    have hcount := hwrap p hpinned
    rw [countP_cons_of_pos (by simp [hp])] at hcount
    obtain ⟨t, run, ht, g⟩ | ⟨t, n, -, -, -, hfull⟩ :=
      mapSharedPage_spec (k := k) h (hin i (by simp)) writable hpinned (by omega) (by omega)
    swap
    · have := hfull hroot
      omega
    have hpage : ∀ j, (va + j * pageSize) / 4096 = va / 4096 + j := fun j => by
      rw [pageSize]
      omega
    have hthere : ∀ j ∈ indices, t.leaf k (va + j * pageSize) = none := fun j hj => by
      rw [g.leaf k _ (inUser.lt (hin j (by simp [hj]))), if_neg]
      · exact hnone j (by simp [hj])
      · rintro ⟨-, hsame⟩
        rw [hpage, hpage, Nat.add_left_cancel_iff] at hsame
        exact hfirst (hsame ▸ hj)
    have hcounts : ∀ q, pinned q →
        t.pageRefs q + (indices.countP fun j => object.getPage j = .ok q) < 2 ^ 16 := fun q hq => by
      have hpos := h.refs_of_held (h.pins q hq)
      have hwrap := hwrap q hq
      by_cases hqp : q = p
      · subst hqp
        have hself : (s.retain q).pageRefs q = s.pageRefs q + 1 := refs_retain_self (by omega)
        rw [g.refs q (by omega), hself]
        omega
      · have hother := refs_retain_of_ne s p q hqp
        rw [g.refs q (by omega), hother]
        rw [countP_cons] at hwrap
        omega
    have hrest' : t.Affords k 0 (indices.map fun i => va + i * pageSize) :=
      g.affords (s := s.retain p) hafford
    obtain ⟨u, runs, hu, hkeeping⟩ := ih ht (by rw [g.roots]; exact hroot)
      (fun j hj => hin j (by simp [hj])) hrest hthere hrest' (fun j hj => hpages j (by simp [hj]))
      hcounts
    have hkept : Keeping s t := ⟨(g.keeping (hnone i (by simp))).leaf, g.roots⟩
    refine ⟨u, ?_, hu, hkept.trans hkeeping⟩
    rw [UserProcess.mapObject, hp]
    dsimp only
    rw [after_ok run]
    exact runs

/-- There is no memory for it, and nothing is mapped. -/
theorem mapSharedPage_refused (hin : inUser va = true) (writable : Bool)
    (hpinned : pinned p) (hwrap : s.pageRefs p + 1 < 2 ^ 16) (hrefuse : s.Refuses k 0 va) :
    ∃ t, mapSharedPage k va p writable s = some (.error (), t) ∧ Sound held pinned t ∧
      (∀ k va, t.leaf k va = s.leaf k va) ∧ ∀ k, (t.spaces k).pml4 = (s.spaces k).pml4 := by
  rw [VmState.Refuses] at hrefuse
  obtain ⟨t, -, -, g⟩ | ⟨t, n, run, ht, g, -⟩ :=
    mapSharedPage_spec (k := k) h hin writable hpinned hwrap (by omega)
  · have hfree : t.freePages + s.missing k va = s.freePages := g.free
    have hroom : t.room k + (s.missing k va + 1) = s.room k := g.room
    omega
  · exact ⟨t, run, ht, g.leaf, g.roots⟩

end

/-! ## Runs of calls -/

/-- Either there is no memory for the first page, or there is for all of them, and none of them is
mapped. -/
def VmState.Fits (s : VmState κ) (k : κ) (cost : Nat) (vas : List Nat) : Prop :=
  (∃ va rest, vas = va :: rest ∧ s.Refuses k cost va) ∨
    (∀ va ∈ vas, s.leaf k va = none) ∧ s.Affords k cost vas

variable {u : UserProcess κ}

/-- A program was loaded: its pages are anywhere, and its break and its mappings begin above them or
not. -/
structure UserProcess.Loaded (held : Nat → Nat) (pinned : Nat → Prop) (u : UserProcess κ) : Prop where
  sound : Sound held pinned u.vm
  root : (u.vm.spaces u.space).pml4 ≠ 0
  base : userBase ≤ u.brkBase ∧ u.brkBase ≤ u.brkCurrent
  aligned : u.brkCurrent % pageSize = 0
  limit : u.brkLimit = userBrkLimit
  mmap : u.nextMmap % pageSize = 0 ∧ u.nextMmap ≤ userMmapLimit
  objects : ∀ fd object, u.shm fd = some object → ∀ i p, object.getPage i = .ok p → pinned p

/-- A call that maps pages maps all of them where none is, or none of them. The counts of references
do not overflow. -/
def UserProcess.Fits (u : UserProcess κ) : Call → Prop
  | .brk requested => u.grows requested →
      u.vm.Fits u.space 1 (addresses u.brkCurrent (alignUp requested) pageSize)
  | .mmap length _ flags fd offset => ∀ object va pages,
      u.mmapRange length flags fd offset = .ok (object, va, pages) →
        (∀ p, object.getPage 0 ≠ .ok p) ∨
        (∀ p, u.vm.pageRefs p +
          ((List.range pages).countP fun i => object.getPage i = .ok p) < 2 ^ 16) ∧
        (u.vm.Refuses u.space 0 va ∨ (∀ i < pages, ∃ p, object.getPage i = .ok p) ∧
          u.vm.Fits u.space 0 ((List.range pages).map fun i => va + i * pageSize))
  | .fault address _ => userStackGrowLimit ≤ address → address < userStackTop →
      u.vm.Fits u.space 1 [alignDown address pageSize]

omit [Fintype κ] [DecidableEq κ] in
theorem pairwise_addresses (base limit : Nat) :
    (addresses base limit pageSize).Pairwise fun a b => a / 4096 ≠ b / 4096 := by
  rw [addresses, pairwise_map]
  refine List.nodup_range.imp fun {i j} hij => ?_
  rw [pageSize]
  omega

theorem mapNewPages_fits (h : Sound held pinned s) (hroot : (s.spaces k).pml4 ≠ 0)
    (hin : ∀ va ∈ vas, inUser va = true) (hapart : vas.Pairwise fun a b => a / 4096 ≠ b / 4096)
    (hfits : s.Fits k 1 vas) :
    (∃ t, (vas.forM fun va => mapNewPage k va true fun _ => 0) s = some (.ok ⟨⟩, t) ∧
      Sound held pinned t ∧ Keeping s t) ∨
    ∃ t, (vas.forM fun va => mapNewPage k va true fun _ => 0) s = some (.error (), t) ∧
      Sound held pinned t ∧ Keeping s t ∧ ∀ k va, t.leaf k va = s.leaf k va := by
  obtain ⟨va, rest, rfl, hrefuse⟩ | ⟨hnone, hafford⟩ := hfits
  · obtain ⟨t, run, ht, hleaf, hroots⟩ := mapNewPage_refused h (hin va (by simp)) hrefuse
    have hkeeping : Keeping s t := ⟨fun k va e _ he => (hleaf k va).trans he, hroots⟩
    refine .inr ⟨t, ?_, ht, hkeeping, hleaf⟩
    exact Prog.forM_cons_of_error run
  · obtain ⟨t, run, ht, hkeeping, -⟩ := mapNewPages h hroot hin hapart hnone hafford
    exact .inl ⟨t, run, ht, hkeeping⟩

/-- After a call the program is still one that was loaded, no page was replaced, and a call that
failed has mapped none. -/
structure Proper (held : Nat → Nat) (pinned : Nat → Prop) (u : UserProcess κ)
    (r : Bool × UserProcess κ) : Prop where
  loaded : r.2.Loaded held pinned
  keeping : Keeping u.vm r.2.vm
  failed : r.1 = false → ∀ k va, r.2.vm.leaf k va = u.vm.leaf k va

omit [DecidableEq κ] in
theorem Proper.refl (h : u.Loaded held pinned) (done : Bool) : Proper held pinned u (done, u) :=
  ⟨h, .refl _, fun _ _ _ => rfl⟩

namespace UserProcess.Loaded

omit [DecidableEq κ] in
/-- The state after pages were mapped or not. -/
theorem withVm (h : u.Loaded held pinned) (ht : Sound held pinned t) (hkeeping : Keeping u.vm t) :
    { u with vm := t }.Loaded held pinned :=
  { h with sound := ht, root := fun hnone => h.root ((hkeeping.roots _).symm.trans hnone) }

omit [DecidableEq κ] in
theorem withBreak (h : u.Loaded held pinned) {newBreak : Nat} (hbase : u.brkBase ≤ newBreak)
    (haligned : newBreak % pageSize = 0) : { u with brkCurrent := newBreak }.Loaded held pinned :=
  { h with base := ⟨h.base.1, hbase⟩, aligned := haligned }

omit [DecidableEq κ] [Fintype κ] in
theorem alignUp_mod (value : Nat) : alignUp value % pageSize = 0 := by
  rw [alignUp, Nat.mul_mod_left]

theorem sysBrk (h : u.Loaded held pinned) {requested : Nat} (hfits : u.Fits (.brk requested)) :
    Proper held pinned u (u.call (.brk requested)) := by
  have hcall : ∀ {r}, u.sysBrk requested = r →
      u.call (.brk requested) = (requested = 0 || r.1 = alignUp requested, r.2) := by
    rintro r rfl
    rfl
  by_cases hzero : requested = 0
  · rw [hcall (if_pos hzero)]
    exact .refl h _
  by_cases hout : alignUp requested < u.brkBase ∨ u.brkLimit < alignUp requested
  · rw [hcall ((if_neg hzero).trans (if_pos hout))]
    exact .refl h _
  have haligned := alignUp_mod requested
  by_cases hshrink : alignUp requested ≤ u.brkCurrent
  · rw [hcall ((if_neg hzero).trans ((if_neg hout).trans (if_pos hshrink)))]
    exact ⟨h.withBreak (by omega) haligned, .refl _, fun _ _ _ => rfl⟩
  have hgrow : u.sysBrk requested = _ := (if_neg hzero).trans ((if_neg hout).trans (if_neg hshrink))
  have hin : ∀ va ∈ addresses u.brkCurrent (alignUp requested) pageSize, inUser va = true := by
    intro va hva
    obtain ⟨i, rfl, hlt⟩ := mem_addresses (by decide) hva
    have hbase := h.base
    have hlimit : u.brkLimit = 0x7feff000 := h.limit
    rw [inUser_iff, userLimit]
    omega
  obtain ⟨t, run, ht, hkeeping⟩ | ⟨t, run, ht, hkeeping, hleaf⟩ := mapNewPages_fits h.sound h.root hin
    (pairwise_addresses _ _) (hfits ⟨hzero, by omega, by omega, by omega⟩)
  · rw [hcall hgrow, after_ok run]
    exact ⟨(h.withVm ht hkeeping).withBreak (Nat.le_of_not_lt fun hlt => hout (.inl hlt)) haligned,
      hkeeping, by simp⟩
  · rw [hcall hgrow, after_error run]
    exact ⟨h.withVm ht hkeeping, hkeeping, fun _ => hleaf⟩

omit [Fintype κ] [DecidableEq κ] in
theorem mmapRange_eq_ok {length flags fd offset pages : Nat} {object : SharedObject}
    (hmmap : u.nextMmap % pageSize = 0 ∧ u.nextMmap ≤ userMmapLimit)
    (hrange : u.mmapRange length flags fd offset = .ok (object, va, pages)) :
    u.shm fd = some object ∧ va % pageSize = 0 ∧ userMmapBase ≤ va ∧
      va + pages * pageSize ≤ userMmapLimit := by
  obtain ⟨haligned, hlimit⟩ := hmmap
  have hnext : alignUp u.nextMmap = u.nextMmap := by
    rw [userMmapLimit] at hlimit
    rw [alignUp]
    rw [pageSize] at *
    omega
  rw [UserProcess.mmapRange] at hrange
  split_ifs at hrange
  split at hrange
  · cases hrange
  · next object' hobject =>
    dsimp only at hrange
    have hlength := alignUp_mod length
    rw [hnext] at hrange
    split_ifs at hrange with _ hlong
    injection hrange with hrange
    simp only [Prod.mk.injEq] at hrange
    obtain ⟨rfl, rfl, rfl⟩ := hrange
    generalize alignUp length = size at hlong hlength
    rw [userMmapBase, userMmapLimit] at *
    rw [pageSize] at *
    refine ⟨hobject, ?_, ?_, ?_⟩ <;> omega

theorem mapObject_refused {object : SharedObject} {i : Nat} (h : Sound held pinned s)
    (hin : inUser (va + i * pageSize) = true) (writable : Bool) (hp : object.getPage i = .ok p)
    (hpinned : pinned p) (hwrap : s.pageRefs p + 1 < 2 ^ 16)
    (hrefuse : s.Refuses k 0 (va + i * pageSize)) (indices : List Nat) :
    ∃ t, mapObject k object va writable (i :: indices) s = (.noMemory, t) ∧ Sound held pinned t ∧
      Keeping s t ∧ ∀ k va, t.leaf k va = s.leaf k va := by
  obtain ⟨t, run, ht, hleaf, hroots⟩ := mapSharedPage_refused h hin writable hpinned hwrap hrefuse
  refine ⟨t, ?_, ht, ⟨fun k va e _ he => (hleaf k va).trans he, hroots⟩, hleaf⟩
  rw [mapObject, hp]
  dsimp only
  rw [after_error run]

theorem mapObject_fits {object : SharedObject} {pages : Nat} (h : Sound held pinned s)
    (hroot : (s.spaces k).pml4 ≠ 0) (writable : Bool)
    (hin : ∀ i < pages, inUser (va + i * pageSize) = true)
    (hobject : ∀ i p, object.getPage i = .ok p → pinned p)
    (hfits : (∀ p, object.getPage 0 ≠ .ok p) ∨
      (∀ p, s.pageRefs p +
        ((List.range pages).countP fun i => object.getPage i = .ok p) < 2 ^ 16) ∧
      (s.Refuses k 0 va ∨ (∀ i < pages, ∃ p, object.getPage i = .ok p) ∧
        s.Fits k 0 ((List.range pages).map fun i => va + i * pageSize))) :
    ∃ status t, mapObject k object va writable (List.range pages) s = (status, t) ∧
      Sound held pinned t ∧ Keeping s t ∧
      (status ≠ .ok → ∀ k va, t.leaf k va = s.leaf k va) := by
  have hempty : ∀ status : Status, ∃ status' t, (status, s) = (status', t) ∧ Sound held pinned t ∧ Keeping s t ∧
      (status' ≠ .ok → ∀ k va, t.leaf k va = s.leaf k va) := fun status =>
    ⟨status, s, rfl, h, .refl s, fun _ _ _ => rfl⟩
  cases pages with
  | zero => exact hempty .ok
  | succ n =>
    cases hpage : object.getPage 0 with
    | error status =>
      rw [range_succ_eq_map, mapObject, hpage]
      exact hempty status
    | ok p =>
      obtain hnone | ⟨hwrap, hfits⟩ := hfits
      · exact absurd hpage (hnone p)
      have hzero : va + 0 * pageSize = va := by omega
      have hrefs : s.pageRefs p + 1 < 2 ^ 16 := by
        have := hwrap p
        rw [range_succ_eq_map, countP_cons_of_pos (by simp [hpage])] at this
        omega
      have hrefused : s.Refuses k 0 va → ∃ status t,
          mapObject k object va writable (List.range (n + 1)) s = (status, t) ∧ Sound held pinned t ∧
          Keeping s t ∧ (status ≠ .ok → ∀ k va, t.leaf k va = s.leaf k va) := fun hrefuse => by
        rw [range_succ_eq_map]
        obtain ⟨t, run, ht, hkeeping, hleaf⟩ := mapObject_refused h (hin 0 (by omega)) writable hpage
          (hobject 0 p hpage) hrefs (by rwa [hzero]) (List.map Nat.succ (List.range n))
        exact ⟨_, t, run, ht, hkeeping, fun _ => hleaf⟩
      obtain hrefuse | ⟨hall, hfits⟩ := hfits
      · exact hrefused hrefuse
      obtain ⟨va', rest, heq, hrefuse⟩ | ⟨hnone, hafford⟩ := hfits
      · rw [range_succ_eq_map, map_cons, hzero] at heq
        obtain ⟨rfl, -⟩ := List.cons.inj heq
        exact hrefused hrefuse
      · obtain ⟨t, run, ht, hkeeping⟩ := mapObject_maps h hroot writable
          (fun i hi => hin i (List.mem_range.1 hi)) nodup_range
          (fun i hi => hnone _ (List.mem_map.2 ⟨i, hi, rfl⟩)) hafford
          (fun i hi => (hall i (List.mem_range.1 hi)).imp fun p hp => ⟨hp, hobject i p hp⟩)
          fun p _ => hwrap p
        exact ⟨.ok, t, run, ht, hkeeping, fun hne => absurd rfl hne⟩

theorem sysMmap (h : u.Loaded held pinned) {length prot flags fd offset : Nat}
    (hfits : u.Fits (.mmap length prot flags fd offset)) :
    Proper held pinned u (u.call (.mmap length prot flags fd offset)) := by
  rw [UserProcess.call, UserProcess.sysMmap]
  cases hrange : u.mmapRange length flags fd offset with
  | error status => exact .refl h _
  | ok range =>
    obtain ⟨object, va, pages⟩ := range
    obtain ⟨hshm, haligned, hlow, hhigh⟩ := mmapRange_eq_ok h.mmap hrange
    have hin : ∀ i < pages, inUser (va + i * pageSize) = true := fun i hi => by
      rw [userMmapBase] at hlow
      rw [userMmapLimit, pageSize] at hhigh
      rw [inUser_iff, userBase, userLimit, pageSize]
      omega
    obtain ⟨status, t, run, ht, hkeeping, hfail⟩ := mapObject_fits h.sound h.root (prot.testBit 1) hin
      (h.objects fd object hshm) (hfits object va pages hrange)
    have hloaded := h.withVm ht hkeeping
    dsimp only
    rw [run]
    cases status with
    | ok =>
      have hnext : (va + pages * pageSize) % pageSize = 0 := by
        rw [Nat.add_mul_mod_self_right, haligned]
      exact ⟨{ hloaded with mmap := ⟨hnext, hhigh⟩ }, hkeeping, fun hfail => by simp at hfail⟩
    | _ => exact ⟨hloaded, hkeeping, fun _ => hfail (by simp)⟩

theorem fault (h : u.Loaded held pinned) {address : Nat} {write : Bool}
    (hfits : u.Fits (.fault address write)) :
    Proper held pinned u (u.call (.fault address write)) := by
  rw [UserProcess.call]
  split_ifs with hthere
  · exact .refl h true
  rw [UserProcess.fault]
  obtain ⟨-, hlow, hhigh, hin, -, run⟩ | run | ⟨hin, run⟩ :=
    @handlePageFault_cases _ u.space address _ u.vm false write
  · rw [run]
    obtain ⟨va, rest, heq, hrefuse⟩ | ⟨hnone, hafford⟩ := hfits hlow hhigh
    · obtain ⟨rfl, -⟩ := List.cons.inj heq
      obtain ⟨t, run, ht, hleaf, hroots⟩ := mapNewPage_refused h.sound hin hrefuse
      have hkeeping : Keeping u.vm t := ⟨fun k va e _ he => (hleaf k va).trans he, hroots⟩
      rw [after_error run]
      exact ⟨h.withVm ht hkeeping, hkeeping, fun _ => hleaf⟩
    · obtain ⟨t, run, ht, hkeeping, -⟩ := mapNewPages h.sound h.root (by simpa using hin)
        (pairwise_singleton _ _) hnone hafford
      rw [Prog.forM_singleton] at run
      rw [after_ok run]
      exact ⟨h.withVm ht hkeeping, hkeeping, by simp⟩
  · rw [after_error run]
    exact .refl h false
  · have hnone : u.vm.walkUserLeaf u.space (alignDown address pageSize) = none := by
      rw [walkUserLeaf_page u.vm u.space (alignDown_page address)]
      simpa using hthere
    have hfail : breakCow u.space (alignDown address pageSize) u.vm = some (.error (), u.vm) :=
      breakCow_of_none fun pt e hsome => by
        rw [hnone] at hsome
        cases hsome
    rw [run, after_error hfail]
    exact .refl h false

end UserProcess.Loaded

theorem UserProcess.Loaded.call (h : u.Loaded held pinned) (c : Call) (hfits : u.Fits c) :
    Proper held pinned u (u.call c) := by
  cases c with
  | brk requested => exact h.sysBrk hfits
  | mmap length prot flags fd offset => exact h.sysMmap hfits
  | fault address write => exact h.fault hfits

end RadKernel.Vm
