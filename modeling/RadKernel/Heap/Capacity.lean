import RadKernel.Heap.Results

/-!
# The bytes behind a pointer

What `allocate_aligned` and `rad_memory_alloc` promise about the pointer they return, for any heap
whose blocks tile `g_heap`, whatever else the memory holds.
-/

namespace RadKernel.Heap

variable {L : Layout} {h h' : Memory} {size alignment total block user stop a : Nat}

/-! ## rad_memory_alloc -/

/-- `rad_memory_stats_t`. -/
structure MemoryStats where
  allocations : Nat := 0
  frees : Nat := 0
  bytesAllocated : Nat := 0
  bytesFreed : Nat := 0
  bytesLive : Nat := 0
  peakBytesLive : Nat := 0
  deriving DecidableEq, Repr

def MemoryStats.allocated (m : MemoryStats) (size : Nat) : MemoryStats :=
  let live := word (m.bytesLive + size)
  { m with
    allocations := word (m.allocations + 1)
    bytesAllocated := word (m.bytesAllocated + size)
    bytesLive := live
    peakBytesLive := if m.peakBytesLive < live then live else m.peakBytesLive }

/-- `rad_memory_alloc`: the size is stored in front of the bytes. -/
def radMemoryAlloc (L : Layout) (h : Memory) (m : MemoryStats) (size : Nat) :
    Option (Nat × Memory × MemoryStats) :=
  match malloc L h (word (8 + size)) with
  | none => none
  | some (raw, h) =>
    if raw = 0 then some (0, h, m) else some (word (raw + 8), h.store raw size, m.allocated size)

/-! ## The promise -/

/-- The `size` bytes from `p` on lie in the payload of the block. -/
def Inside (h : Memory) (block p size : Nat) : Prop :=
  block + 64 ≤ p ∧ p + size ≤ block + 64 + h.size block

/-- The pointer is aligned, and the bytes lie in the payload of the block in its header. -/
structure Serves (h : Memory) (size alignment p : Nat) : Prop where
  aligned : max 16 alignment ∣ p
  inside : Inside h (h.headerBlock (p - 16)) p size

/-- No free block of the list takes `total` bytes and a pointer behind its header, aligned up, that is
not past the end of the address space. -/
def Refuses (L : Layout) (h : Memory) (total alignment : Nat) : Prop :=
  ∀ b ∈ blockList (heapInit L h), b.2.2 = true → total ≤ b.2.1 → 2 ^ 64 < b.1 + 80 + alignment

instance (L : Layout) (h : Memory) (total alignment : Nat) : Decidable (Refuses L h total alignment) :=
  inferInstanceAs (Decidable (∀ b ∈ blockList (heapInit L h), _ → _ → _))

/-- The blocks tile `g_heap`, at multiples of 64. -/
def Tiled (L : Layout) (h : Memory) : Prop :=
  TilesFrom (L.base + L.bytes) L.base (blockList (heapInit L h)) ∧
    ∀ b ∈ blockList (heapInit L h), 64 ∣ b.1

theorem tiled_of_run {calls : List Call} {s : Session} (hrun : Run L NoWrap calls s) :
    Tiled L s.heap := by
  have hinv := Session.inv_of_run hrun
  obtain ⟨⟨bs, A⟩, -⟩ := id hinv
  refine ⟨hinv.sound.tiles, fun b hb => ?_⟩
  rw [A.represents.blockList_eq] at hb
  obtain ⟨⟨a, c⟩, hac, rfl⟩ := List.mem_map.1 hb
  exact A.represents.aligned hac

/-! ## The search -/

theorem TilesFrom.bounds {bs : List (Nat × Nat × Bool)} (ht : TilesFrom stop a bs)
    {b : Nat × Nat × Bool} (hb : b ∈ bs) : a ≤ b.1 ∧ b.1 + 64 + b.2.1 ≤ stop := by
  have hle : ∀ {a : Nat} {bs : List (Nat × Nat × Bool)}, TilesFrom stop a bs → a ≤ stop := by
    intro a bs
    induction bs generalizing a with
    | nil => exact fun ht => ht.le
    | cons c bs ih =>
      intro ht
      have := ih ht.2
      omega
  induction bs generalizing a with
  | nil => cases hb
  | cons c bs ih =>
    obtain ⟨start, width, free⟩ := c
    obtain ⟨hstart, hrest⟩ := ht
    rcases List.mem_cons.1 hb with rfl | hb
    · have hstop := hle hrest
      exact ⟨hstart.ge, hstart ▸ hstop⟩
    · have hlow : a + 64 + width ≤ b.1 ∧ b.1 + 64 + b.2.1 ≤ stop := ih hrest hb
      omega

/-- The search ends at the first free block that is large enough. -/
theorem findFit_first (total fuel : Nat) (ht : TilesFrom stop a (blocksFrom fuel block h)) :
    (∀ b ∈ blocksFrom fuel block h, b.2.2 = true → b.2.1 < total) ∧
        (findFit fuel block h total = none ∨ findFit fuel block h total = some none) ∨
      ∃ b, (b, h.size b, true) ∈ blocksFrom fuel block h ∧ total ≤ h.size b ∧
        findFit fuel block h total = some (some b) ∧
        ∀ c ∈ blocksFrom fuel block h, c.2.2 = true → total ≤ c.2.1 → b ≤ c.1 := by
  induction fuel generalizing block a with
  | zero => exact .inl ⟨by simp [blocksFrom], .inl rfl⟩
  | succ fuel ih =>
    by_cases hzero : block = 0
    · exact .inl ⟨by simp [blocksFrom, hzero], .inr (by simp [findFit, hzero])⟩
    have hblocks : blocksFrom (fuel + 1) block h =
        (block, h.size block, h.free block != 0) :: blocksFrom fuel (h.next block) h := by
      rw [blocksFrom, if_neg hzero]
    rw [hblocks] at ht ⊢
    rw [findFit, if_neg hzero]
    by_cases hfit : h.free block = 0 ∨ h.size block < total
    · rw [if_pos hfit]
      have hskip : (h.free block != 0) = true → h.size block < total := by
        intro hfree
        exact hfit.resolve_left (by simpa using hfree)
      rcases ih ht.2 with ⟨hnone, hfind⟩ | ⟨b, hb, hsize, hfind, hfirst⟩
      · refine .inl ⟨fun c hc hfree => ?_, hfind⟩
        rcases List.mem_cons.1 hc with rfl | hc
        · exact hskip hfree
        · exact hnone c hc hfree
      · refine .inr ⟨b, List.mem_cons_of_mem _ hb, hsize, hfind, fun c hc hfree hcsize => ?_⟩
        rcases List.mem_cons.1 hc with rfl | hc
        · exact absurd (hskip hfree) (by simpa using hcsize)
        · exact hfirst c hc hfree hcsize
    · rw [if_neg hfit]
      rw [not_or, Nat.not_lt] at hfit
      refine .inr ⟨block, ?_, hfit.2, rfl, fun c hc hfree hcsize => ?_⟩
      · have hfree : (h.free block != 0) = true := by simpa using hfit.1
        rw [hfree]
        exact List.mem_cons_self
      · rcases List.mem_cons.1 hc with rfl | hc
        · exact le_rfl
        · have hstart := ht.1
          have := (ht.2.bounds hc).1
          omega

/-! ## The pointer -/

/-- What `allocate_aligned` does with the block it has found. -/
def claimed (h : Memory) (block total user : Nat) : Memory :=
  ((splitBlock h block total).setFree block 0).setHeader (wordSub user 16) block

theorem claimed_size (hblock : 64 ≤ block) (hfits : total ≤ h.size block)
    (hend : block + 64 + h.size block < 2 ^ 64) (huser : block + 80 ≤ user) (htop : user < 2 ^ 64) :
    (claimed h block total user).size block =
      if h.size block < total + 128 then h.size block else total := by
  have hsub : wordSub user 16 = user - 16 := wordSub_eq (by omega) htop
  have htotal : word (total + 64 + 64) = total + 128 := word_eq (by omega)
  have hne : block ≠ user - 16 := by omega
  have hne8 : block ≠ user - 16 + 8 := by omega
  have hzero : block ≠ 0 := by omega
  rw [claimed, hsub, splitBlock, htotal]
  simp only [hzero, false_or]
  split_ifs with hsmall
  · simp [Memory.size, Memory.setHeader, Memory.setFree, Memory.storeLow, Memory.store, hne, hne8]
  · simp [Memory.size, Memory.setHeader, Memory.setFree, Memory.storeLow, Memory.store,
      Memory.setNext, Memory.setSize, Function.update_apply, hne, hne8]

theorem claimed_headerBlock (huser : 16 ≤ user) (htop : user < 2 ^ 64) :
    (claimed h block total user).headerBlock (user - 16) = block := by
  have hsub : wordSub user 16 = user - 16 := wordSub_eq huser htop
  rw [claimed, hsub]
  simp [Memory.headerBlock, Memory.setHeader, Memory.store]

/-- The pointer into a block, unless it is past the end of the address space. -/
theorem pointer_spec {k : Nat} (hk : k ≤ 12) (hend : block + 80 < 2 ^ 64) :
    if 2 ^ 64 < block + 80 + 2 ^ k then alignUp (word (block + 64 + 16)) (2 ^ k) = 0
    else 2 ^ k ∣ alignUp (word (block + 64 + 16)) (2 ^ k) ∧
      block + 80 ≤ alignUp (word (block + 64 + 16)) (2 ^ k) ∧
      alignUp (word (block + 64 + 16)) (2 ^ k) < block + 80 + 2 ^ k := by
  have hle : 2 ^ k ≤ 2 ^ 12 := Nat.pow_le_pow_right (by omega) hk
  split_ifs with hpast
  · -- the sum wraps to less than the alignment
    have hword : word (block + 64 + 16) = block + 80 := word_eq (by omega)
    have hsum : word (block + 80 + 2 ^ k - 1) < 2 ^ k := by
      simp only [word]
      omega
    rw [hword, alignUp, and_mask (by omega) (by omega), Nat.div_eq_of_lt hsum, Nat.zero_mul]
  · have hword : word (block + 64 + 16) = block + 80 := word_eq (by omega)
    rw [hword]
    exact alignUp_spec (by omega) (by omega)

/-- A request that wraps around comes to a small total. -/
theorem requestTotal_wrapped (size : Nat) (hal : 16 ≤ alignment ∧ alignment ≤ 4096)
    (hsize : size < 2 ^ 64)
    (hwrap : 2 ^ 64 ≤ size + alignment + 78) : requestTotal size alignment < 4352 := by
  have hle : requestTotal size alignment ≤ word (word (word (size + alignment - 1) + 16) + 64 - 1) :=
    Nat.and_le_left
  refine hle.trans_lt ?_
  simp only [word]
  omega

/-! ## The promise is kept -/

theorem allocateAligned_spec (size : Nat) (ht : Tiled L h) {k : Nat} (hk : 4 ≤ k ∧ k ≤ 12)
    (halign : max 16 alignment = 2 ^ k) :
    (Refuses L h (requestTotal (max 1 size) (2 ^ k)) (2 ^ k) ∧
      ∀ p h', allocateAligned L h size alignment = some (p, h') → p = 0) ∨
    ¬Refuses L h (requestTotal (max 1 size) (2 ^ k)) (2 ^ k) ∧
      ∃ block user, 64 ≤ block ∧ requestTotal (max 1 size) (2 ^ k) ≤ (heapInit L h).size block ∧
        block + 64 + (heapInit L h).size block < 2 ^ 64 ∧ 2 ^ k ∣ user ∧ block + 80 ≤ user ∧
        user < block + 80 + 2 ^ k ∧ user < 2 ^ 64 ∧
        allocateAligned L h size alignment =
          some (user, claimed (heapInit L h) block (requestTotal (max 1 size) (2 ^ k)) user) := by
  have hsize : (if size = 0 then 1 else size) = max 1 size := by
    split_ifs <;> omega
  have hal : (if alignment < 16 then 16 else alignment) = 2 ^ k := by
    split_ifs <;> omega
  have hpower : 2 ^ k &&& (2 ^ k - 1) = 0 :=
    (Nat.and_sub_one_eq_zero_iff_isPowerOfTwo (Nat.two_pow_pos k).ne').2 ⟨k, rfl⟩
  have hle : 2 ^ k ≤ 2 ^ 12 := Nat.pow_le_pow_right (by omega) hk.2
  have htaken : ¬(2 ^ k &&& (2 ^ k - 1) ≠ 0 ∨ 4096 < 2 ^ k) := by
    omega
  have hbase := L.base_ge
  have hbound := L.bounded
  unfold allocateAligned
  rw [hsize, hal]
  dsimp only
  rw [if_neg htaken]
  generalize requestTotal (max 1 size) (2 ^ k) = total
  rcases findFit_first total walkFuel ht.1 with
    ⟨hnone, hfind⟩ | ⟨block, hblock, hfits, hfind, hfirst⟩
  · refine .inl ⟨fun b hb hfree hfit => absurd (hnone b hb hfree) (by omega), fun p h' => ?_⟩
    rcases hfind with hfind | hfind <;> rw [hfind]
    · simp
    · simpa using fun hp _ => hp.symm
  · rw [hfind]
    obtain ⟨hlow, hhigh⟩ := ht.1.bounds hblock
    have hdvd := ht.2 _ hblock
    dsimp only at hlow hhigh hdvd ⊢
    have hpointer := pointer_spec hk.2 (show block + 80 < 2 ^ 64 by omega)
    by_cases hpast : 2 ^ 64 < block + 80 + 2 ^ k
    · rw [if_pos hpast] at hpointer
      rw [hpointer]
      refine .inl ⟨fun b hb hfree hfit => ?_, fun p h' => by simpa using fun hp _ => hp.symm⟩
      have := hfirst b hb hfree hfit
      omega
    · rw [if_neg hpast] at hpointer
      obtain ⟨hmultiple, hbelow, habove⟩ := hpointer
      refine .inr ⟨fun hrefuses => hpast (hrefuses _ hblock rfl hfits), block, _, by omega, hfits,
        by omega, hmultiple, hbelow, habove, ?_, rfl⟩
      exact Nat.and_le_left.trans_lt (Nat.mod_lt _ (by omega))

/-- A block that takes the total has room for the bytes behind the pointer unless the request wrapped
around. -/
theorem claimed_inside (hsize : size < 2 ^ 64)
    (hal : 16 ≤ alignment ∧ alignment ≤ 4096) (hblock : 64 ≤ block)
    (hfits : requestTotal (max 1 size) alignment ≤ h.size block)
    (hend : block + 64 + h.size block < 2 ^ 64) (hlow : block + 80 ≤ user)
    (hhigh : user < block + 80 + alignment) (htop : user < 2 ^ 64) :
    user + size ≤ block + 64 +
        (claimed h block (requestTotal (max 1 size) alignment) user).size block ↔
      max 1 size + alignment + 78 < 2 ^ 64 := by
  rw [claimed_size hblock hfits hend hlow htop]
  constructor
  · intro hinside
    by_contra hwrap
    have hsmall := requestTotal_wrapped (max 1 size) hal (by omega) (by omega)
    split_ifs at hinside <;> omega
  · intro hno
    have hroom := (requestTotal_spec (max 1 size) hal.1 hno).2.1
    split_ifs <;> omega

/-- What the claim says of a pointer that `allocate_aligned` returns. -/
def AllocatesWithin (L : Layout) (h : Memory) (size alignment : Nat) : Prop :=
  ∀ p h', allocateAligned L h size alignment = some (p, h') → p ≠ 0 → Serves h' size alignment p

/-- The same for `rad_memory_alloc`, whose pointer is behind the stored size. -/
def MemoryWithin (L : Layout) (h : Memory) (m : MemoryStats) (size : Nat) : Prop :=
  ∀ p h' m', radMemoryAlloc L h m size = some (p, h', m') → p ≠ 0 →
    Inside h' (h'.headerBlock (p - 8 - 16)) p size

theorem allocatesWithin_iff (ht : Tiled L h) (hsize : size < 2 ^ 64) :
    AllocatesWithin L h size alignment ↔ NoWrap (.allocateAligned size alignment) ∨
      Refuses L h (requestTotal (max 1 size) (max 16 alignment)) (max 16 alignment) := by
  by_cases hrejected : Rejected alignment
  · -- the call returns null before it looks at the size
    refine iff_of_true (fun p h' hcall hp => ?_) (.inl (.inl hrejected))
    have hal : (if alignment < 16 then 16 else alignment) = max 16 alignment := by
      split_ifs <;> omega
    unfold Rejected at hrejected
    unfold allocateAligned at hcall
    rw [hal] at hcall
    rw [if_pos hrejected] at hcall
    simp only [Option.some.injEq, Prod.mk.injEq] at hcall
    exact absurd hcall.1.symm hp
  have htaken : max 16 alignment &&& (max 16 alignment - 1) = 0 ∧ max 16 alignment ≤ 4096 := by
    simpa [Rejected] using hrejected
  obtain ⟨k, halign⟩ := (Nat.and_sub_one_eq_zero_iff_isPowerOfTwo (by omega)).1 htaken.1
  have hk : 4 ≤ k ∧ k ≤ 12 := by
    constructor
    · exact (Nat.pow_le_pow_iff_right (by omega : 1 < 2)).1 (by omega)
    · exact (Nat.pow_le_pow_iff_right (by omega : 1 < 2)).1 (by omega)
  have hnowrap : NoWrap (.allocateAligned size alignment) ↔ max 1 size + 2 ^ k + 78 < 2 ^ 64 := by
    rw [NoWrap, halign]
    exact or_iff_right hrejected
  rw [hnowrap, halign]
  rcases allocateAligned_spec size ht hk halign with ⟨hrefuses, hnull⟩ | ⟨htakes, hfound⟩
  · exact iff_of_true (fun p h' hcall hp => absurd (hnull p h' hcall) hp) (.inr hrefuses)
  · obtain ⟨block, user, hblock, hfits, hend, hmultiple, hlow, hhigh, htop, hcall⟩ := hfound
    have hinside := claimed_inside hsize (by omega) hblock hfits hend hlow hhigh htop
    have hheader :
    (claimed (heapInit L h) block (requestTotal (max 1 size) (2 ^ k)) user).headerBlock
        (user - 16) = block := claimed_headerBlock (by omega) htop
    rw [or_iff_left htakes, ← hinside]
    constructor
    · intro hall
      have hserves := (hall user _ hcall (by omega)).inside
      rw [hheader] at hserves
      exact hserves.2
    · intro hroom p h' hcall' hp
      rw [hcall, Option.some.injEq, Prod.mk.injEq] at hcall'
      obtain ⟨rfl, rfl⟩ := hcall'
      refine ⟨halign ▸ hmultiple, ?_⟩
      rw [hheader]
      exact ⟨by omega, hroom⟩

theorem memoryWithin_iff (ht : Tiled L h) (m : MemoryStats) (hsize : size < 2 ^ 64) :
    MemoryWithin L h m size ↔ size + 102 < 2 ^ 64 ∨
      Refuses L h (requestTotal (max 1 (word (8 + size))) 16) 16 := by
  have hlt : word (8 + size) < 2 ^ 64 := Nat.mod_lt _ (by omega)
  have hsixteen : (2 : Nat) ^ 4 = 16 := rfl
  have hmax : max 16 16 = 2 ^ 4 := rfl
  have hspec := allocateAligned_spec (word (8 + size)) ht (by omega) hmax
  rw [hsixteen] at hspec
  rcases hspec with ⟨hrefuses, hnull⟩ | ⟨htakes, hfound⟩
  · refine iff_of_true (fun p h' m' hcall hp => ?_) (.inr hrefuses)
    unfold radMemoryAlloc malloc at hcall
    split at hcall
    · cases hcall
    · rename_i raw h₁ hraw
      rw [if_pos (hnull _ _ hraw)] at hcall
      simp only [Option.some.injEq, Prod.mk.injEq] at hcall
      exact absurd hcall.1.symm hp
  · obtain ⟨block, raw, hblock, hfits, hend, hmultiple, hlow, hhigh, htop, hcall⟩ := hfound
    have hal : 16 ≤ 16 ∧ 16 ≤ 4096 := by omega
    have hinside := claimed_inside hlt hal hblock hfits hend hlow hhigh htop
    have hclaimed : (claimed (heapInit L h) block (requestTotal (max 1 (word (8 + size))) 16)
        raw).headerBlock (raw - 16) = block := claimed_headerBlock (by omega) htop
    have hsmall := claimed_size hblock hfits hend hlow htop
    generalize claimed (heapInit L h) block (requestTotal (max 1 (word (8 + size))) 16) raw = h₁
      at hcall hinside hclaimed hsmall
    have hheader : (h₁.store raw size).headerBlock (raw + 8 - 8 - 16) = block := by
      have hne : raw - 16 ≠ raw := by omega
      simpa [Memory.headerBlock, Memory.store, hne] using hclaimed
    have hstored : (h₁.store raw size).size block = h₁.size block := by
      have hne : block ≠ raw := by omega
      simp [Memory.size, Memory.store, hne]
    have hmalloc :
    radMemoryAlloc L h m size = some (raw + 8, h₁.store raw size, m.allocated size) := by
      have hword : word (raw + 8) = raw + 8 := word_eq (by omega)
      unfold radMemoryAlloc malloc
      rw [hcall]
      dsimp only
      rw [if_neg (by omega), hword]
    have hroom : MemoryWithin L h m size ↔ raw + 8 + size ≤ block + 64 + h₁.size block := by
      constructor
      · intro hall
        have hin := hall _ _ _ hmalloc (by omega)
        rw [hheader] at hin
        exact hstored ▸ hin.2
      · intro hin p h' m' hcall' hp
        rw [hmalloc] at hcall'
        obtain ⟨rfl, rfl, rfl⟩ := hcall'
        rw [hheader]
        exact ⟨by omega, hstored ▸ hin⟩
    rw [hroom, or_iff_left htakes]
    by_cases hwrap : 8 + size < 2 ^ 64
    · rw [word_eq hwrap] at hinside
      omega
    · -- the sum itself wrapped, to less than the eight bytes of the stored size
      split_ifs at hsmall <;> omega

/-- For every heap whose blocks tile `g_heap`, every size and every alignment: the bytes lie in the
block exactly when the request does not wrap around, or finds no block. -/
theorem capacity_iff (ht : Tiled L h) (m : MemoryStats) (hsize : size < 2 ^ 64) :
    (AllocatesWithin L h size alignment ↔ NoWrap (.allocateAligned size alignment) ∨
      Refuses L h (requestTotal (max 1 size) (max 16 alignment)) (max 16 alignment)) ∧
    (MemoryWithin L h m size ↔ size + 102 < 2 ^ 64 ∨
      Refuses L h (requestTotal (max 1 (word (8 + size))) 16) 16) :=
  ⟨allocatesWithin_iff ht hsize, memoryWithin_iff ht m hsize⟩

theorem tiled_boot : Tiled defaultLayout Session.boot.heap := tiled_of_run .boot

/-- A request that is as large as the address space, and takes a block. -/
theorem capacity_iff_wrap :
    Tiled defaultLayout Session.boot.heap ∧ 2 ^ 64 - 31 < 2 ^ 64 ∧
      (AllocatesWithin defaultLayout Session.boot.heap (2 ^ 64 - 31) 16 ↔
        NoWrap (.allocateAligned (2 ^ 64 - 31) 16) ∨
          Refuses defaultLayout Session.boot.heap (requestTotal (max 1 (2 ^ 64 - 31)) (max 16 16))
            (max 16 16)) :=
  ⟨tiled_boot, by omega, (capacity_iff (m := {}) tiled_boot (by omega)).1⟩

/-- `malloc(SIZE_MAX - 30)` and `rad_memory_alloc(SIZE_MAX)` return pointers into the heap. -/
theorem not_capacity_wrap :
    ¬∀ L h m size alignment, Tiled L h → size < 2 ^ 64 → alignment < 2 ^ 64 →
      AllocatesWithin L h size alignment ∧ MemoryWithin L h m size := by
  intro hall
  have hwithin := (hall defaultLayout Session.boot.heap {} (2 ^ 64 - 31) 16 tiled_boot (by omega)
    (by omega)).1
  have htakes : ¬Refuses defaultLayout Session.boot.heap (requestTotal (max 1 (2 ^ 64 - 31)) (max 16 16))
      (max 16 16) := by
    decide +kernel
  rw [allocatesWithin_iff tiled_boot (by omega), or_iff_left htakes] at hwithin
  simp [NoWrap, Rejected] at hwithin

end RadKernel.Heap
