import RadKernel.Kernel.State
import RadKernel.Lib.Words
import Mathlib.Algebra.Group.Int.Defs

/-!
# Program images

`load_elf32_image` and `load_elf64_image` of `core/RADKernel_runtime.cpp`, for a `size_t` of 64 bits.
The two differ in the layout of the headers and in how they compare an offset with the size of the
file; the rest is one definition with a `Format`.

Memory is a function on addresses relative to the file image, so that a header that is read from
outside the file has some value, too. A call of `memcpy` is recorded with its destination and source.
-/

namespace RadKernel.Elf

open Kernel

abbrev Memory := Int → UInt8

/-- A field of `n` bytes. -/
def field (file : Memory) (offset : Int) (n : Nat) : Nat :=
  Words.decode ((List.range n).map fun k => file (offset + k))

structure Header where
  machine : Nat
  entry : Nat
  phoff : Nat
  phentsize : Nat
  phnum : Nat
  deriving DecidableEq, Repr

structure ProgramHeader where
  type : Nat
  offset : Nat
  vaddr : Nat
  filesz : Nat
  memsz : Nat
  deriving DecidableEq, Repr

/-- `ELF_PT_LOAD`. -/
def ptLoad : Nat := 1

/-- What the two loaders do not share. -/
structure Format where
  /-- The width of addresses. -/
  bits : Nat
  /-- `ident[4]`. -/
  elfClass : UInt8
  machine : Nat
  headerSize : Nat
  programHeaderSize : Nat
  header : Memory → Header
  programHeader : Memory → Int → ProgramHeader
  /-- The table of program headers is refused. -/
  tableOutside : Header → Nat → Prop
  /-- The bytes of a segment are refused. -/
  sourceOutside : ProgramHeader → Nat → Prop
  [decidableTable : ∀ header size, Decidable (tableOutside header size)]
  [decidableSource : ∀ ph size, Decidable (sourceOutside ph size)]

instance (f : Format) (header : Header) (size : Nat) : Decidable (f.tableOutside header size) :=
  f.decidableTable header size

instance (f : Format) (ph : ProgramHeader) (size : Nat) : Decidable (f.sourceOutside ph size) :=
  f.decidableSource ph size

/-- `Elf32Header` and `Elf32ProgramHeader`, and the comparisons of `load_elf32_image`: the sum of two
32-bit fields wraps, the one with a product of type `size_t` does not. -/
def elf32 : Format where
  bits := 32
  elfClass := 1
  machine := 40
  headerSize := 52
  programHeaderSize := 32
  header file := ⟨field file 18 2, field file 24 4, field file 28 4, field file 42 2, field file 44 2⟩
  programHeader file p :=
    ⟨field file p 4, field file (p + 4) 4, field file (p + 8) 4, field file (p + 16) 4,
      field file (p + 20) 4⟩
  tableOutside header size := size < (header.phoff + header.phnum * header.phentsize) % 2 ^ 64
  sourceOutside ph size := size < (ph.offset + ph.filesz) % 2 ^ 32

/-- `Elf64Header` and `Elf64ProgramHeader`, and the comparisons of `load_elf64_image`. -/
def elf64 : Format where
  bits := 64
  elfClass := 2
  machine := 183
  headerSize := 64
  programHeaderSize := 56
  header file := ⟨field file 18 2, field file 24 8, field file 32 8, field file 54 2, field file 56 2⟩
  programHeader file p :=
    ⟨field file p 4, field file (p + 8) 8, field file (p + 16) 8, field file (p + 32) 8,
      field file (p + 40) 8⟩
  tableOutside header size :=
    size < header.phoff ∨ size - header.phoff < header.phnum * header.phentsize
  sourceOutside ph size := size < ph.offset ∨ size - ph.offset < ph.filesz

/-- `elf_ident_ok`. -/
def elfIdentOk (file : Memory) (size : Nat) : Prop :=
  16 ≤ size ∧ file 0 = 0x7f ∧ file 1 = 0x45 ∧ file 2 = 0x4c ∧ file 3 = 0x46 ∧ file 5 = 1

instance (file : Memory) (size : Nat) : Decidable (elfIdentOk file size) :=
  inferInstanceAs (Decidable (_ ∧ _))

/-- The value of `i * header->phentsize`, a product of type `int`. -/
def intProduct (i phentsize : Nat) : Int := ((i * phentsize : Nat) + 2 ^ 31) % 2 ^ 32 - 2 ^ 31

/-- The program headers that the two loops read. -/
def programHeaders (f : Format) (file : Memory) : List ProgramHeader :=
  let header := f.header file
  (List.range header.phnum).map fun i =>
    f.programHeader file (header.phoff + intProduct i header.phentsize)

/-- The address behind a segment. -/
def Format.finish (f : Format) (ph : ProgramHeader) : Nat := (ph.vaddr + ph.memsz) % 2 ^ f.bits

/-- The loop that finds the lowest and the highest address. -/
def span (f : Format) (size : Nat) : List ProgramHeader → Nat → Nat → Except Status (Nat × Nat)
  | [], minVaddr, maxVaddr => .ok (minVaddr, maxVaddr)
  | ph :: phs, minVaddr, maxVaddr =>
    if ph.type ≠ ptLoad then span f size phs minVaddr maxVaddr
    else if f.sourceOutside ph size ∨ ph.memsz < ph.filesz then .error .invalidArgument
    else
      span f size phs (if ph.vaddr < minVaddr then ph.vaddr else minVaddr)
        (if maxVaddr < f.finish ph then f.finish ph else maxVaddr)

/-- A call of `memcpy`: `length` bytes, to an offset in the image from an offset in the file. -/
structure Copy where
  destination : Nat
  source : Nat
  length : Nat
  deriving DecidableEq, Repr

/-- `image`, `image_size` and `entry` of the program record, and the calls of `memcpy`. -/
structure Loaded where
  image : Nat
  imageSize : Nat
  entry : Nat
  copies : List Copy
  deriving DecidableEq, Repr

/-- The two loaders, with the answer of `rad_memory_alloc`. -/
def load (f : Format) (alloc : Nat → Option Nat) (file : Memory) (size : Nat) : Except Status Loaded :=
  if size < f.headerSize then .error .invalidArgument
  else
    let header := f.header file
    if ¬elfIdentOk file size ∨ file 4 ≠ f.elfClass ∨ header.machine ≠ f.machine then
      .error .notSupported
    else if f.tableOutside header size ∨ header.phentsize < f.programHeaderSize then
      .error .invalidArgument
    else
      match span f size (programHeaders f file) (2 ^ f.bits - 1) 0 with
      | .error status => .error status
      | .ok (minVaddr, maxVaddr) =>
        if minVaddr = 2 ^ f.bits - 1 ∨ maxVaddr ≤ minVaddr ∨ header.entry < minVaddr ∨
            maxVaddr ≤ header.entry then .error .invalidArgument
        else
          match alloc (maxVaddr - minVaddr) with
          | none => .error .noMemory
          | some image =>
            .ok
              { image
                imageSize := maxVaddr - minVaddr
                entry := image + (header.entry - minVaddr)
                copies := ((programHeaders f file).filter fun ph => ph.type = ptLoad).map fun ph =>
                  ⟨ph.vaddr - minVaddr, ph.offset, ph.filesz⟩ }

def loadElf32Image := load elf32

def loadElf64Image := load elf64

end RadKernel.Elf
