import RadKernel.Elf.Model

/-!
# What the copy loop reads and writes

The loaders check every segment before they copy the first one. The checks are made with the width of
the fields, so that a sum that wraps passes them.
-/

namespace RadKernel.Elf

open Kernel

variable {f : Format} {alloc : Nat → Option Nat} {file : Memory} {size lo hi lo' hi' : Nat}
  {phs : List ProgramHeader} {l : Loaded}

/-- Every copy reads the file and writes the image, and the entry point is in the image. -/
structure InBounds (size : Nat) (l : Loaded) : Prop where
  source : ∀ c ∈ l.copies, c.source + c.length ≤ size
  destination : ∀ c ∈ l.copies, c.destination + c.length ≤ l.imageSize
  entry : l.image ≤ l.entry ∧ l.entry < l.image + l.imageSize

instance (size : Nat) (l : Loaded) : Decidable (InBounds size l) :=
  decidable_of_iff ((∀ c ∈ l.copies, c.source + c.length ≤ size) ∧
      (∀ c ∈ l.copies, c.destination + c.length ≤ l.imageSize) ∧
      l.image ≤ l.entry ∧ l.entry < l.image + l.imageSize)
    ⟨fun h => ⟨h.1, h.2.1, h.2.2⟩, fun h => ⟨h.source, h.destination, h.entry⟩⟩

/-- The end of the segment in the file and its end in memory are below the end of the addresses, or
the file and some other segment reach as far. -/
structure Unwrapped (f : Format) (phs : List ProgramHeader) (size : Nat) (ph : ProgramHeader) :
    Prop where
  source : ph.offset + ph.filesz < 2 ^ f.bits ∨ ph.offset + ph.filesz ≤ size
  destination : ph.vaddr + ph.memsz < 2 ^ f.bits ∨
    ∃ other ∈ phs, other.type = ptLoad ∧ ph.vaddr + ph.filesz ≤ f.finish other

/-! ## The first loop -/

/-- What is known of the addresses that the first loop finds. -/
structure Spans (f : Format) (size : Nat) (phs : List ProgramHeader) (lo hi lo' hi' : Nat) : Prop where
  low : lo' ≤ lo
  high : hi ≤ hi'
  segment : ∀ ph ∈ phs, ph.type = ptLoad → ¬f.sourceOutside ph size ∧ ph.filesz ≤ ph.memsz ∧
    lo' ≤ ph.vaddr ∧ f.finish ph ≤ hi'
  reached : hi' = hi ∨ ∃ ph ∈ phs, ph.type = ptLoad ∧ f.finish ph = hi'

theorem span_spec (h : span f size phs lo hi = .ok (lo', hi')) :
    Spans f size phs lo hi lo' hi' := by
  induction phs generalizing lo hi with
  | nil =>
    cases h
    exact ⟨Nat.le_refl _, Nat.le_refl _, by simp, .inl rfl⟩
  | cons ph phs ih =>
    rw [span] at h
    split_ifs at h with htype hbad hlow hhigh hhigh
    · -- another kind of header
      have hs := ih h
      refine ⟨hs.low, hs.high, fun other hother hload => ?_, hs.reached.imp_right ?_⟩
      · rcases List.mem_cons.1 hother with rfl | hother
        · exact absurd hload htype
        · exact hs.segment other hother hload
      · rintro ⟨other, hother, hload⟩
        exact ⟨other, List.mem_cons_of_mem _ hother, hload⟩
    all_goals
      rw [not_not] at htype
      rw [not_or, Nat.not_lt] at hbad
      have hs := ih h
      have hlow' := hs.low
      have hhigh' := hs.high
      refine ⟨by omega, by omega, fun other hother hload => ?_, ?_⟩
      · rcases List.mem_cons.1 hother with rfl | hother
        · exact ⟨hbad.1, hbad.2, by omega, by omega⟩
        · exact hs.segment other hother hload
      · rcases hs.reached with heq | ⟨other, hother, hload⟩
        · first
          | exact .inl heq
          | exact .inr ⟨ph, List.mem_cons_self, htype, heq.symm⟩
        · exact .inr ⟨other, List.mem_cons_of_mem _ hother, hload⟩

/-! ## The copies -/

theorem load_spec (h : load f alloc file size = .ok l) :
    ∃ minVaddr maxVaddr,
      span f size (programHeaders f file) (2 ^ f.bits - 1) 0 = .ok (minVaddr, maxVaddr) ∧
      minVaddr ≤ (f.header file).entry ∧ (f.header file).entry < maxVaddr ∧
      l = ⟨l.image, maxVaddr - minVaddr, l.image + ((f.header file).entry - minVaddr),
        ((programHeaders f file).filter fun ph => ph.type = ptLoad).map fun ph =>
          ⟨ph.vaddr - minVaddr, ph.offset, ph.filesz⟩⟩ := by
  unfold load at h
  dsimp only at h
  split_ifs at h
  split at h
  · cases h
  · rename_i minVaddr maxVaddr hspan
    split_ifs at h with hentry
    split at h
    · cases h
    · cases h
      refine ⟨minVaddr, maxVaddr, hspan, ?_, ?_, rfl⟩ <;> omega

/-- For a loader whose check of the source is right as long as the sum does not wrap. -/
theorem copiesInBounds_iff_unwrapped
    (hcheck : ∀ ph, ¬f.sourceOutside ph size → ph.offset + ph.filesz < 2 ^ f.bits →
      ph.offset + ph.filesz ≤ size)
    (h : load f alloc file size = .ok l) :
    InBounds size l ↔ ∀ ph ∈ programHeaders f file, ph.type = ptLoad →
      Unwrapped f (programHeaders f file) size ph := by
  obtain ⟨minVaddr, maxVaddr, hspan, hentry, hentry', hl⟩ := load_spec h
  have hs := span_spec hspan
  have hcopy : ∀ ph ∈ programHeaders f file, ph.type = ptLoad →
      ⟨ph.vaddr - minVaddr, ph.offset, ph.filesz⟩ ∈ l.copies := by
    intro ph hph hload
    rw [hl]
    exact List.mem_map.2 ⟨ph, List.mem_filter.2 ⟨hph, by simpa using hload⟩, rfl⟩
  have hsize : l.imageSize = maxVaddr - minVaddr := by rw [hl]
  constructor
  · intro hin ph hph hload
    have hsource := hin.source _ (hcopy ph hph hload)
    have hdestination := hin.destination _ (hcopy ph hph hload)
    refine ⟨.inr hsource, .inr ?_⟩
    dsimp only at hdestination
    -- the highest address is the end of a segment
    rcases hs.reached with hzero | ⟨other, hother, hload', heq⟩
    · omega
    · exact ⟨other, hother, hload', by omega⟩
  · intro hall
    have hmem : ∀ c ∈ l.copies, ∃ ph ∈ programHeaders f file, ph.type = ptLoad ∧
        c = ⟨ph.vaddr - minVaddr, ph.offset, ph.filesz⟩ := by
      intro c hc
      rw [hl] at hc
      obtain ⟨ph, hph, rfl⟩ := List.mem_map.1 hc
      obtain ⟨hph, hload⟩ := List.mem_filter.1 hph
      exact ⟨ph, hph, by simpa using hload, rfl⟩
    refine ⟨fun c hc => ?_, fun c hc => ?_, ?_⟩
    · obtain ⟨ph, hph, hload, rfl⟩ := hmem c hc
      rcases (hall ph hph hload).source with hfits | hfits
      · exact hcheck ph (hs.segment ph hph hload).1 hfits
      · exact hfits
    · obtain ⟨ph, hph, hload, rfl⟩ := hmem c hc
      obtain ⟨-, hfile, hlow, hhigh⟩ := hs.segment ph hph hload
      dsimp only
      rcases (hall ph hph hload).destination with hfits | ⟨other, hother, hload', hbelow⟩
      · have hfinish : f.finish ph = ph.vaddr + ph.memsz := Nat.mod_eq_of_lt hfits
        omega
      · have hother' := (hs.segment other hother hload').2.2.2
        omega
    · rw [hl]
      exact ⟨by dsimp only; omega, by dsimp only; omega⟩

/-- For every file that one of the two loaders takes. -/
theorem copiesInBounds_iff (alloc : Nat → Option Nat) (file : Memory) (size : Nat) (l : Loaded) :
    (loadElf32Image alloc file size = .ok l →
      (InBounds size l ↔ ∀ ph ∈ programHeaders elf32 file, ph.type = ptLoad →
        Unwrapped elf32 (programHeaders elf32 file) size ph)) ∧
    (loadElf64Image alloc file size = .ok l →
      (InBounds size l ↔ ∀ ph ∈ programHeaders elf64 file, ph.type = ptLoad →
        Unwrapped elf64 (programHeaders elf64 file) size ph)) := by
  refine ⟨copiesInBounds_iff_unwrapped fun ph hinside hfits => ?_,
    copiesInBounds_iff_unwrapped fun ph hinside _ => ?_⟩
  · change ¬size < (ph.offset + ph.filesz) % 2 ^ 32 at hinside
    change ph.offset + ph.filesz < 2 ^ 32 at hfits
    rw [Nat.mod_eq_of_lt hfits] at hinside
    omega
  · change ¬(size < ph.offset ∨ size - ph.offset < ph.filesz) at hinside
    omega

/-! ## Files -/

def fileOf (bytes : List UInt8) : Memory := fun i => if i < 0 then 0 else bytes.getD i.toNat 0

def oneSegment (offset filesz memsz : Nat) : List UInt8 :=
  [0x7f, 0x45, 0x4c, 0x46, 1, 1, 1] ++ List.replicate 9 0 ++ Words.encode 2 2 ++ Words.encode 2 40 ++
    Words.encode 4 1 ++ Words.encode 4 0x1000 ++ Words.encode 4 52 ++ List.replicate 10 0 ++
    Words.encode 2 32 ++ Words.encode 2 1 ++ List.replicate 6 0 ++ Words.encode 4 1 ++
    Words.encode 4 offset ++ Words.encode 4 0x1000 ++ Words.encode 4 0x1000 ++ Words.encode 4 filesz ++
    Words.encode 4 memsz ++ List.replicate 8 0

/-- A segment of the 64-bit format. -/
def segment64 (vaddr filesz memsz : Nat) : List UInt8 :=
  Words.encode 4 1 ++ List.replicate 12 0 ++ Words.encode 8 vaddr ++ Words.encode 8 vaddr ++
    Words.encode 8 filesz ++ Words.encode 8 memsz ++ List.replicate 8 0

/-- A file of the 64-bit format whose second segment wraps around the end of the addresses. -/
def wrappingSegment : List UInt8 :=
  [0x7f, 0x45, 0x4c, 0x46, 2, 1, 1] ++ List.replicate 9 0 ++ Words.encode 2 2 ++ Words.encode 2 183 ++
    Words.encode 4 1 ++ Words.encode 8 0x1000 ++ Words.encode 8 64 ++ List.replicate 14 0 ++
    Words.encode 2 56 ++ Words.encode 2 2 ++ List.replicate 6 0 ++ segment64 0x1000 0 16 ++
    segment64 (2 ^ 63) 16 (2 ^ 63 + 16)

theorem copiesInBounds_oneSegment :
    loadElf32Image some (fileOf (oneSegment 84 0 16)) 84 = .ok ⟨16, 16, 16, [⟨0, 84, 0⟩]⟩ ∧
      (InBounds 84 ⟨16, 16, 16, [⟨0, 84, 0⟩]⟩ ↔
        ∀ ph ∈ programHeaders elf32 (fileOf (oneSegment 84 0 16)), ph.type = ptLoad →
          Unwrapped elf32 (programHeaders elf32 (fileOf (oneSegment 84 0 16))) 84 ph) :=
  ⟨rfl, (copiesInBounds_iff some (fileOf (oneSegment 84 0 16)) 84 _).1 rfl⟩

/-- A segment of 32 bytes at the offset `0xfffffff0` of a file of 84 bytes, and a segment that wraps
next to one that does not. -/
theorem not_inBounds_wrapping :
    (¬∀ alloc file size l, loadElf32Image alloc file size = .ok l → InBounds size l) ∧
      ¬∀ alloc file size l, loadElf64Image alloc file size = .ok l → InBounds size l := by
  constructor
  · intro h
    have hin := h some (fileOf (oneSegment 0xfffffff0 32 32)) 84 ⟨32, 32, 32, [⟨0, 0xfffffff0, 32⟩]⟩ rfl
    revert hin
    decide
  · intro h
    have hin := h some (fileOf wrappingSegment) 176
      ⟨16, 16, 16, [⟨0, 0, 0⟩, ⟨2 ^ 63 - 0x1000, 0, 16⟩]⟩ (by decide +kernel)
    revert hin
    decide

end RadKernel.Elf
