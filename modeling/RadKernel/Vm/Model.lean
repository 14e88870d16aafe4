import RadKernel.Lib.Buffer
import RadKernel.Lib.Prog
import Mathlib.Algebra.Group.Nat.Defs

/-!
# Address spaces

`platforms/x86_64/x86_vm.cpp`: the tracker of physical pages, page tables of four levels, and
address spaces that fork by copy on write. A physical page is given by its number, address spaces
by names; a space without `pml4` is one that is not in use.

A function that returns 0 fails here, with whatever it did before. `g_summary`, markers and the
invalidation of the TLB are left out, and entries have no accessed and dirty bits.
-/

namespace RadKernel.Vm

open Prog

def pageSize : Nat := 4096
def largePageSize : Nat := 2 * 1024 * 1024
def maxTrackedPages : Nat := 262144
def userBase : Nat := 0x3ffff000
def userLimit : Nat := 0x90000000
def userStackTop : Nat := 0x80000000
def userStackGrowLimit : Nat := 0x78000000
def lowIdentityLimit : Nat := 16 * 1024 * 1024
def kernelIdentityLimit : Nat := 4 * 1024 * 1024 * 1024

/-- The length of `owned_pages`. -/
def maxOwnedPages : Nat := 16384

def alignDown (value alignment : Nat) : Nat := value / alignment * alignment

/-! ## State -/

inductive PageState where
  | untracked
  | free
  | reserved
  deriving DecidableEq, Repr

/-- `x86_address_space_t`. -/
structure AddressSpace where
  pml4 : Nat := 0
  ownedPages : List Nat := []
  deriving DecidableEq, Repr

abbrev Page := Nat → UInt8

/-- Physical memory, `g_page_state`, `g_page_refs` and the address spaces. -/
structure VmState (κ : Type) where
  memory : Nat → Page
  pageState : Nat → PageState
  pageRefs : Nat → Nat := fun _ => 0
  spaces : κ → AddressSpace := fun _ => {}

abbrev VmM (κ : Type) := Prog Unit (VmState κ)

/-! ## Entries of page tables -/

/-- An entry: the page it points to and the flags that the code uses. -/
structure Pte where
  page : Nat := 0
  present : Bool := false
  write : Bool := false
  user : Bool := false
  cacheDisable : Bool := false
  large : Bool := false
  cow : Bool := false
  deriving DecidableEq, Repr

/-- The eight bytes of an entry. -/
def Pte.bytes (e : Pte) : List UInt8 :=
  [(e.present.toNat + 2 * e.write.toNat + 4 * e.user.toNat + 16 * e.cacheDisable.toNat +
      128 * e.large.toNat).toUInt8,
    (2 * e.cow.toNat + 16 * (e.page % 16)).toUInt8,
    (e.page / 2 ^ 4).toUInt8, (e.page / 2 ^ 12).toUInt8, (e.page / 2 ^ 20).toUInt8,
    (e.page / 2 ^ 28).toUInt8, (e.page / 2 ^ 36 % 16).toUInt8, 0]

def bit (b : UInt8) (k : Nat) : Bool := b.toNat.testBit k

def Pte.ofBytes (b : Page) (o : Nat) : Pte where
  page := (b (o + 1)).toNat / 16 + 2 ^ 4 * (b (o + 2)).toNat + 2 ^ 12 * (b (o + 3)).toNat +
    2 ^ 20 * (b (o + 4)).toNat + 2 ^ 28 * (b (o + 5)).toNat + 2 ^ 36 * ((b (o + 6)).toNat % 16)
  present := bit (b o) 0
  write := bit (b o) 1
  user := bit (b o) 2
  cacheDisable := bit (b o) 4
  large := bit (b o) 7
  cow := bit (b (o + 1)) 1

section

variable {κ : Type} [DecidableEq κ]

/-- Entry `index` of the table in page `table`. -/
def VmState.entry (s : VmState κ) (table index : Nat) : Pte :=
  .ofBytes (s.memory table) (8 * index)

def setEntry (table index : Nat) (e : Pte) : VmM κ Unit :=
  Prog.modify fun s => { s with
    memory := Function.update s.memory table
      (Buffer.store (s.memory table) (8 * index) e.bytes) }

def setPage (page : Nat) (content : Page) : VmM κ Unit :=
  Prog.modify fun s => { s with memory := Function.update s.memory page content }

def setSpace (id : κ) (space : AddressSpace) : VmM κ Unit :=
  Prog.modify fun s => { s with spaces := Function.update s.spaces id space }

/-! ## Physical pages -/

/-- `x86_vm_alloc_page`; page 0 stands for failure. -/
def allocPage : VmM κ Nat := do
  let s ← Prog.read
  match (List.range maxTrackedPages).find? fun page => s.pageState page = .free with
  | none => Prog.fail ()
  | some page =>
    Prog.modify fun s => { s with
      pageState := Function.update s.pageState page .reserved
      pageRefs := Function.update s.pageRefs page 1 }
    if page = 0 then Prog.fail () else return page

def freePage (page : Nat) : VmM κ Unit :=
  Prog.modify fun s =>
    if maxTrackedPages ≤ page ∨ s.pageState page ≠ .reserved then s
    else if 1 < s.pageRefs page then
      { s with pageRefs := Function.update s.pageRefs page (s.pageRefs page - 1) }
    else
      { s with
        pageState := Function.update s.pageState page .free
        pageRefs := Function.update s.pageRefs page 0 }

/-- `retain_page`; the counts are of type `uint16_t`. -/
def retainPage (page : Nat) : VmM κ Unit := do
  let s ← Prog.read
  if maxTrackedPages ≤ page ∨ s.pageState page ≠ .reserved ∨ s.pageRefs page = 0 then Prog.fail ()
  else
    Prog.modify fun s => { s with
      pageRefs := Function.update s.pageRefs page ((s.pageRefs page + 1) % 2 ^ 16) }

def recordOwnedPage (id : κ) (page : Nat) : VmM κ Unit := do
  let s ← Prog.read
  let space := s.spaces id
  if maxOwnedPages ≤ space.ownedPages.length then Prog.fail ()
  else setSpace id { space with ownedPages := space.ownedPages ++ [page] }

def replaceOwnedPage (id : κ) (oldPage newPage : Nat) : VmM κ Unit := do
  let s ← Prog.read
  let space := s.spaces id
  if oldPage ∈ space.ownedPages then
    setSpace id { space with ownedPages := space.ownedPages.replace oldPage newPage }
  else recordOwnedPage id newPage

def allocOwnedPage (id : κ) : VmM κ Nat := do
  let page ← allocPage
  setPage page fun _ => 0
  match ← Prog.attempt (recordOwnedPage id page) with
  | .ok _ => return page
  | .error _ =>
    freePage page
    Prog.fail ()

/-! ## Page tables -/

def tableIndex (virtualAddress level : Nat) : Nat := virtualAddress / 2 ^ (12 + level * 9) % 512

def ensureNextTable (id : κ) (table index : Nat) : VmM κ Nat := do
  let s ← Prog.read
  let entry := s.entry table index
  if entry.present then
    setEntry table index { entry with user := true }
    return entry.page
  else
    let page ← allocOwnedPage id
    setEntry table index { page, present := true, write := true, user := true }
    return page

/-- The tables on the way to the entry of an address. -/
def ensureTables (id : κ) (virtualAddress : Nat) : VmM κ Nat := do
  let s ← Prog.read
  let space := s.spaces id
  if space.pml4 = 0 ∨ virtualAddress % pageSize ≠ 0 then Prog.fail ()
  else
    let pdpt ← ensureNextTable id space.pml4 (tableIndex virtualAddress 3)
    let pd ← ensureNextTable id pdpt (tableIndex virtualAddress 2)
    ensureNextTable id pd (tableIndex virtualAddress 1)

def mapPage (id : κ) (virtualAddress physical : Nat) (flags : Pte) : VmM κ Unit := do
  let pt ← ensureTables id virtualAddress
  setEntry pt (tableIndex virtualAddress 0) { flags with page := physical, present := true }

def mapLargePage (id : κ) (virtualAddress physical : Nat) (flags : Pte) : VmM κ Unit := do
  let s ← Prog.read
  let space := s.spaces id
  if space.pml4 = 0 ∨ virtualAddress % largePageSize ≠ 0 ∨ physical % 512 ≠ 0 then Prog.fail ()
  else
    let pdpt ← ensureNextTable id space.pml4 (tableIndex virtualAddress 3)
    let pd ← ensureNextTable id pdpt (tableIndex virtualAddress 2)
    setEntry pd (tableIndex virtualAddress 1)
      { flags with page := physical, present := true, large := true }

/-- `KernelMmioRange`, as `x86_vm_map_kernel_mmio` records it; four levels of tables tell its
addresses apart. -/
structure KernelMmioRange where
  base : Nat
  size : Nat
  aligned : base % pageSize = 0
  above : kernelIdentityLimit ≤ base
  below : base + size ≤ 2 ^ 48

/-- The addresses of a loop from `base` to `limit`. -/
def addresses (base limit step : Nat) : List Nat :=
  (List.range ((limit - base + step - 1) / step)).map fun i => base + i * step

def overlapsUser (address size : Nat) : Bool := address < userLimit && userBase < address + size

def mapLow (id : κ) (address : Nat) : VmM κ PUnit :=
  if overlapsUser address pageSize then return ()
  else mapPage id address (address / pageSize) { write := true }

def mapHigh (id : κ) (address : Nat) : VmM κ PUnit :=
  if overlapsUser address largePageSize then return ()
  else mapLargePage id address (address / pageSize) { write := true }

def mapMmio (id : κ) (range : KernelMmioRange) : VmM κ PUnit :=
  (addresses range.base (range.base + range.size) pageSize).forM fun address =>
    mapPage id address (address / pageSize) { write := true, cacheDisable := true }

def mapKernelIdentity (ranges : List KernelMmioRange) (id : κ) : VmM κ PUnit := do
  (addresses 0 lowIdentityLimit pageSize).forM (mapLow id)
  (addresses lowIdentityLimit kernelIdentityLimit largePageSize).forM (mapHigh id)
  ranges.forM (mapMmio id)

/-! ## Address spaces -/

def destroyAddressSpace (id : κ) : VmM κ Unit := do
  let s ← Prog.read
  (s.spaces id).ownedPages.reverse.forM freePage
  setSpace id {}

def createAddressSpace (ranges : List KernelMmioRange) (id : κ) : VmM κ Unit := do
  setSpace id {}
  let page ← allocOwnedPage id
  let s ← Prog.read
  setSpace id { s.spaces id with pml4 := page }
  match ← Prog.attempt (mapKernelIdentity ranges id) with
  | .ok _ => return ()
  | .error _ =>
    destroyAddressSpace id
    Prog.fail ()

/-- `PteUser`, and `PteWrite` when the page is writable. -/
def userFlags (writable : Bool) : Pte := { user := true, write := writable }

def inUser (virtualAddress : Nat) : Bool := userBase ≤ virtualAddress && virtualAddress < userLimit

def mapUserPage (id : κ) (virtualAddress physical : Nat) (writable : Bool) : VmM κ Unit := do
  if !inUser virtualAddress then Prog.fail ()
  else
    mapPage id (alignDown virtualAddress pageSize) physical (userFlags writable)
    recordOwnedPage id physical

def mapSharedPage (id : κ) (virtualAddress physical : Nat) (writable : Bool) : VmM κ Unit := do
  if !inUser virtualAddress then Prog.fail ()
  else
    retainPage physical
    let mapped ← Prog.attempt do
      mapPage id (alignDown virtualAddress pageSize) physical (userFlags writable)
      recordOwnedPage id physical
    match mapped with
    | .ok _ => return ()
    | .error _ =>
      freePage physical
      Prog.fail ()

/-- An entry that user programs may use. -/
def VmState.userEntry (s : VmState κ) (table index : Nat) : Option Pte :=
  let entry := s.entry table index
  if entry.present && entry.user then some entry else none

/-- The same, and it is no large page. -/
def VmState.userTable (s : VmState κ) (table index : Nat) : Option Nat :=
  (s.userEntry table index).bind fun entry => if entry.large then none else some entry.page

/-- `walk_user_leaf`: the page table and the entry in it. -/
def VmState.walkUserLeaf (s : VmState κ) (id : κ) (virtualAddress : Nat) : Option (Nat × Pte) := do
  let pml4 := (s.spaces id).pml4
  if pml4 = 0 || !inUser virtualAddress then none
  else
    let entry ← s.userEntry pml4 (tableIndex virtualAddress 3)
    let pd ← s.userTable entry.page (tableIndex virtualAddress 2)
    let pt ← s.userTable pd (tableIndex virtualAddress 1)
    let leaf ← s.userEntry pt (tableIndex virtualAddress 0)
    return (pt, leaf)

/-- The loop of `x86_vm_clone_cow`, for one address. -/
def clonePage (child parent : κ) (virtualAddress : Nat) : VmM κ PUnit := do
  let s ← Prog.read
  match s.walkUserLeaf parent virtualAddress with
  | none => return ()
  | some (pt, entry) =>
    let flags := if entry.write then { entry with write := false, cow := true } else entry
    if entry.write then setEntry pt (tableIndex virtualAddress 0) flags
    retainPage entry.page
    let mapped ← Prog.attempt do
      mapPage child virtualAddress entry.page flags
      recordOwnedPage child entry.page
    match mapped with
    | .ok _ => return ()
    | .error _ =>
      freePage entry.page
      Prog.fail ()

def cloneCow (ranges : List KernelMmioRange) (child parent : κ) : VmM κ Unit := do
  let s ← Prog.read
  if (s.spaces parent).pml4 = 0 then Prog.fail ()
  else
    createAddressSpace ranges child
    match ← Prog.attempt ((addresses userBase userLimit pageSize).forM (clonePage child parent)) with
    | .ok _ => return ()
    | .error _ =>
      destroyAddressSpace child
      Prog.fail ()

/-- `x86_vm_handle_page_fault`, the part that makes the stack grow. -/
def growStack (id : κ) (virtualAddress : Nat) : VmM κ Unit := do
  let physical ← allocPage
  setPage physical fun _ => 0
  let mapped ← Prog.attempt do
    mapPage id virtualAddress physical (userFlags true)
    recordOwnedPage id physical
  match mapped with
  | .ok _ => return ()
  | .error _ =>
    freePage physical
    Prog.fail ()

/-- `x86_vm_handle_page_fault`, the part for pages that are copied on write. -/
def breakCow (id : κ) (virtualAddress : Nat) : VmM κ Unit := do
  let s ← Prog.read
  match s.walkUserLeaf id virtualAddress with
  | none => Prog.fail ()
  | some (pt, leaf) =>
    let old := leaf.page
    if !leaf.cow then Prog.fail ()
    else if maxTrackedPages ≤ old ∨ s.pageRefs old = 0 then Prog.fail ()
    else if s.pageRefs old = 1 then
      setEntry pt (tableIndex virtualAddress 0) { leaf with write := true, cow := false }
    else
      let new ← allocPage
      setPage new (s.memory old)
      match ← Prog.attempt (replaceOwnedPage id old new) with
      | .ok _ =>
        freePage old
        setEntry pt (tableIndex virtualAddress 0) { leaf with page := new, write := true, cow := false }
      | .error _ =>
        freePage new
        Prog.fail ()

/-- `x86_vm_handle_page_fault` in the space that is active; the error code as its flags. -/
def handlePageFault (id : κ) (faultAddress : Nat) (present write user : Bool) : VmM κ Unit :=
  let virtualAddress := alignDown faultAddress pageSize
  if !present && user && userStackGrowLimit ≤ faultAddress && faultAddress < userStackTop then
    growStack id virtualAddress
  else if !write || !user then Prog.fail ()
  else breakCow id virtualAddress

/-! ## Callers -/

/-- What `x86_sys_brk`, `map_user_stack` and `load_user_elf` do for each page. -/
def mapNewPage (id : κ) (virtualAddress : Nat) (writable : Bool) (content : Page) : VmM κ Unit := do
  let physical ← allocPage
  setPage physical content
  match ← Prog.attempt (mapUserPage id virtualAddress physical writable) with
  | .ok _ => return ()
  | .error _ =>
    freePage physical
    Prog.fail ()

end

end RadKernel.Vm
