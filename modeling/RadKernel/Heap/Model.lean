import Mathlib.Algebra.Group.Nat.Defs
import Mathlib.Data.Nat.Init
import Mathlib.Tactic.Common

/-!
# The kernel heap

`runtime/freestanding_runtime.cpp`: one static array `g_heap`, cut into blocks. Every
block starts with a 64-byte `HeapBlock` (size, next, free) and every allocation keeps a
16-byte `AllocationHeader` (block, magic) right below the pointer it hands out.

Memory is modelled by its 64-bit words, addressed by the byte address of the word: all
fields of the two headers lie in aligned words, `free` and `magic` in the low half of
theirs. Sizes and pointers are naturals below `2 ^ 64`, with the wrap-around of `size_t`
and `uintptr_t` written out. A walk along `next` pointers carries fuel; `none` stands for
a call that never returns because the list it walks is cyclic.
-/

namespace RadKernel.Heap

/-- `AllocationMagic`. -/
def allocationMagic : Nat := 0x52414441

/-- `size_t` and `uintptr_t` arithmetic. -/
def word (n : Nat) : Nat := n % 2 ^ 64

def wordSub (a b : Nat) : Nat := word (a + (2 ^ 64 - word b))

/-- Where `g_heap` lies. Its alignment is the source's `alignas(64)`; the heap holds at
least one block header and does not run over the end of the address space. -/
structure Layout where
  base : Nat
  bytes : Nat
  base_aligned : 64 ∣ base
  base_pos : 0 < base
  header_fits : 64 ≤ bytes
  bounded : base + bytes < 2 ^ 64

/-- `g_heap_head` and the words of memory. -/
structure Memory where
  head : Nat
  mem : Nat → Nat

namespace Memory

def store (h : Memory) (a v : Nat) : Memory := { h with mem := Function.update h.mem a v }

/-- A 32-bit store into the low half of a word. -/
def storeLow (h : Memory) (a v : Nat) : Memory :=
  h.store a (h.mem a / 2 ^ 32 * 2 ^ 32 + v % 2 ^ 32)

def size (h : Memory) (block : Nat) : Nat := h.mem block
def next (h : Memory) (block : Nat) : Nat := h.mem (block + 8)
def free (h : Memory) (block : Nat) : Nat := h.mem (block + 16) % 2 ^ 32
def setSize (h : Memory) (block v : Nat) : Memory := h.store block v
def setNext (h : Memory) (block v : Nat) : Memory := h.store (block + 8) v
def setFree (h : Memory) (block v : Nat) : Memory := h.storeLow (block + 16) v

/-- `header->block` and `header->magic` of the `AllocationHeader` at `header`. -/
def headerBlock (h : Memory) (header : Nat) : Nat := h.mem header
def headerMagic (h : Memory) (header : Nat) : Nat := h.mem (header + 8) % 2 ^ 32

/-- The three header stores of `allocate_aligned`: `magic` and `reserved` share a word. -/
def setHeader (h : Memory) (header block : Nat) : Memory :=
  (h.store header block).store (header + 8) allocationMagic

end Memory

/-- `align_up_size` and `align_up_uintptr`, which agree on a 64-bit target. -/
def alignUp (value alignment : Nat) : Nat :=
  word (value + alignment - 1) &&& (2 ^ 64 - alignment)

def heapInit (L : Layout) (h : Memory) : Memory :=
  if h.head ≠ 0 then h
  else (({ h with head := L.base }.setSize L.base (L.bytes - 64)).setNext L.base 0).setFree L.base 1

def splitBlock (h : Memory) (block size : Nat) : Memory :=
  if block = 0 ∨ h.size block < word (size + 64 + 64) then h
  else
    let next := word (block + 64 + size)
    let h := h.setSize next (wordSub (wordSub (h.size block) size) 64)
    let h := h.setNext next (h.next block)
    let h := h.setFree next 1
    let h := h.setSize block size
    h.setNext block next

/-- The loop of `coalesce_heap` from the block it stands at. -/
def coalesceFrom : Nat → Nat → Memory → Option Memory
  | 0, _, _ => none
  | fuel + 1, block, h =>
    if block = 0 ∨ h.next block = 0 then some h
    else if h.free block ≠ 0 ∧ h.free (h.next block) ≠ 0 then
      let h := h.setSize block (word (h.size block + (64 + h.size (h.next block))))
      coalesceFrom fuel block (h.setNext block (h.next (h.next block)))
    else coalesceFrom fuel (h.next block) h

/-- More steps than the address space has bytes: a longer walk is cyclic. -/
def walkFuel : Nat := 2 ^ 64

def coalesceHeap (h : Memory) : Option Memory := coalesceFrom walkFuel h.head h

/-- The search loop of `allocate_aligned`: the first free block of at least `total`
bytes, `some none` when the list ends first. -/
def findFit : Nat → Nat → Memory → Nat → Option (Option Nat)
  | 0, _, _, _ => none
  | fuel + 1, block, h, total =>
    if block = 0 then some none
    else if h.free block = 0 ∨ h.size block < total then findFit fuel (h.next block) h total
    else some (some block)

/-- `total` in `allocate_aligned`, with the defaults for a zero size and a small
alignment applied. -/
def requestTotal (size alignment : Nat) : Nat :=
  alignUp (word (word (size + alignment - 1) + 16)) 64

/-- `allocate_aligned`: the pointer (0 is `nullptr`) and the heap. -/
def allocateAligned (L : Layout) (h : Memory) (size alignment : Nat) : Option (Nat × Memory) :=
  let size := if size = 0 then 1 else size
  let alignment := if alignment < 16 then 16 else alignment
  if alignment &&& (alignment - 1) ≠ 0 ∨ 4096 < alignment then some (0, h)
  else
    let total := requestTotal size alignment
    let h := heapInit L h
    match findFit walkFuel h.head h total with
    | none => none
    | some none => some (0, h)
    | some (some block) =>
      let h := splitBlock h block total
      let h := h.setFree block 0
      let user := alignUp (word (block + 64 + 16)) alignment
      some (user, h.setHeader (wordSub user 16) block)

def malloc (L : Layout) (h : Memory) (size : Nat) : Option (Nat × Memory) :=
  allocateAligned L h size 16

/-- `free`. -/
def release (L : Layout) (h : Memory) (pointer : Nat) : Option Memory :=
  if pointer = 0 then some h
  else
    let header := wordSub pointer 16
    let block := h.headerBlock header
    if h.headerMagic header ≠ allocationMagic then some h
    else if block < L.base ∨ L.base + L.bytes ≤ block then some h
    else if h.free block ≠ 0 then some h
    else coalesceHeap ((h.storeLow (header + 8) 0).setFree block 1)

/-- The blocks met by following `next` from `block`: address, size and free flag. -/
def blocksFrom : Nat → Nat → Memory → List (Nat × Nat × Bool)
  | 0, _, _ => []
  | fuel + 1, block, h =>
    if block = 0 then []
    else (block, h.size block, h.free block != 0) :: blocksFrom fuel (h.next block) h

/-- The block list from `g_heap_head`. -/
def blockList (h : Memory) : List (Nat × Nat × Bool) := blocksFrom walkFuel h.head h

/-! ## Runs of calls -/

inductive Call where
  | allocateAligned (size alignment : Nat)
  | malloc (size : Nat)
  | free (pointer : Nat)

/-- A heap together with the pointers handed out so far and the allocations (pointer and
requested size) not freed yet. -/
structure Session where
  heap : Memory
  returned : List Nat
  live : List (Nat × Nat)

namespace Session

/-- Record the pointer that an allocation of `size` bytes returned. -/
def handOut (s : Session) (size : Nat) (result : Nat × Memory) : Session :=
  if result.1 = 0 then { s with heap := result.2 }
  else ⟨result.2, result.1 :: s.returned, (result.1, size) :: s.live⟩

def step (L : Layout) (s : Session) : Call → Option Session
  | .allocateAligned size alignment =>
    (Heap.allocateAligned L s.heap size alignment).map (s.handOut size)
  | .malloc size => (Heap.malloc L s.heap size).map (s.handOut size)
  | .free pointer => (release L s.heap pointer).map fun h =>
      { s with heap := h, live := s.live.filter fun a => a.1 ≠ pointer }

/-- `g_heap_head` is null and `g_heap` zero before the first call. -/
def boot : Session := ⟨⟨0, fun _ => 0⟩, [], []⟩

end Session

/-- Arguments are `size_t`; only null and pointers handed out before may be freed. -/
def Permitted (s : Session) : Call → Prop
  | .allocateAligned size alignment => size < 2 ^ 64 ∧ alignment < 2 ^ 64
  | .malloc size => size < 2 ^ 64
  | .free pointer => pointer = 0 ∨ pointer ∈ s.returned

/-- `allocate_aligned` turns the alignment down before it looks at the size. -/
def Rejected (alignment : Nat) : Prop :=
  max 16 alignment &&& (max 16 alignment - 1) ≠ 0 ∨ 4096 < max 16 alignment

/-- The request plus its overhead and rounding stays below `2 ^ 64`. -/
def NoWrap : Call → Prop
  | .allocateAligned size alignment =>
    Rejected alignment ∨ max 1 size + max 16 alignment + 78 < 2 ^ 64
  | .malloc size => max 1 size + 94 < 2 ^ 64
  | .free _ => True

/-- `s` is what the calls lead to from `boot`, every call permitted where it is made. -/
inductive Run (L : Layout) (ok : Call → Prop) : List Call → Session → Prop
  | boot : Run L ok [] Session.boot
  | call {calls : List Call} {s t : Session} {c : Call} : Run L ok calls s → Permitted s c →
      ok c → s.step L c = some t → Run L ok (calls ++ [c]) t

end RadKernel.Heap
