import RadKernel.Ext4.FileBytes

/-!
# Reading through an extent tree

The ext4 format maps the blocks of a file by extents in the leaves of a tree. A length field up to
`2 ^ 15` counts blocks that are written, a larger one counts, less `2 ^ 15`, blocks that read as
zeros. `read_inode_data` masks the field with `0x7fff`.
-/

namespace RadKernel.Ext4

open Kernel List

variable {g : Geometry} {d : Disk} {I : Inode} {node : Node} {blocks : Nat → Nat → UInt8}
  {es : List Extent} {e e' r : Extent} {records : List Extent}
  {k l i fuel offset size done off : Nat}

/-! ## The format -/

def Extent.Spans (e : Extent) (l : Nat) : Prop := e.block ≤ l ∧ l < e.block + e.length

instance (e : Extent) (l : Nat) : Decidable (e.Spans l) := inferInstanceAs (Decidable (_ ∧ _))

/-- `ExtentTree blocks k node es`: a tree of depth `k` under `node` has the extents `es`. The keys of
an index node grow, and the extents under a key lie between it and the next one. -/
inductive ExtentTree (blocks : Nat → Nat → UInt8) : Nat → Node → List Extent → Prop
  | leaf {node : Node} (hmagic : node.magic = extentHeaderMagic) (hdepth : node.depth = 0) :
      ExtentTree blocks 0 node node.records
  | index {k : Nat} {node : Node} {children : Nat → List Extent}
      (hmagic : node.magic = extentHeaderMagic) (hdepth : node.depth = k + 1)
      (hsorted : node.records.Pairwise (·.block < ·.block))
      (htrees : ∀ i r, node.records[i]? = some r →
        ExtentTree blocks k (parseNode (blocks r.leaf)) (children i))
      (hfrom : ∀ i r, node.records[i]? = some r → ∀ e ∈ children i, r.block ≤ e.block)
      (hto : ∀ i r, node.records[i + 1]? = some r → ∀ e ∈ children i,
        e.block + e.length ≤ r.block) :
      ExtentTree blocks (k + 1) node ((List.range node.records.length).flatMap children)

/-- A file of the format: block numbers have 32 bits, the depth and the length fields 16. -/
structure ExtentMap (g : Geometry) (d : Disk) (I : Inode) (es : List Extent) : Prop where
  tree : ∃ node, I.area = .extents node ∧ node.depth < 2 ^ 16 ∧
    ∃ k, ExtentTree d.blocks k node es
  sorted : es.Pairwise fun e e' => e.block + e.length ≤ e'.block
  field : ∀ e ∈ es, 0 < e.len ∧ e.len < 2 ^ 16
  ends : ∀ e ∈ es, e.block + e.length ≤ 2 ^ 32
  size : I.size ≤ 2 ^ 32 * g.blockSize

def Extent.physical (e : Extent) (l : Nat) : Nat := e.start + (l - e.block)

/-- The byte of a logical block: that of the physical block, and zero where no extent is or the
extent is not written. -/
def formatBlockByte (d : Disk) (es : List Extent) (l i : Nat) : UInt8 :=
  match es.find? (·.Spans l) with
  | some e => if e.len ≤ 2 ^ 15 then d.blocks (e.physical l) i else 0
  | none => 0

/-- The byte of a file as the format has it. -/
def formatByte (g : Geometry) (d : Disk) (es : List Extent) (off : Nat) : UInt8 :=
  formatBlockByte d es (off / g.blockSize) (off % g.blockSize)

/-- The blocks of the extent that the source maps as the format does. -/
def Extent.ReadRight (e : Extent) (l : Nat) : Prop :=
  if e.len ≤ 2 ^ 15 then e.len < 2 ^ 15 ∧ e.block + e.len < 2 ^ 32 ∧ e.physical l ≠ 0
  else 2 ^ 32 ≤ e.block + e.length ∨ e.physical l = 0

/-! ## The descent -/

theorem Extent.Covers.spans (h : e.Covers l) : e.Spans l := by
  have hlt := h.2
  have hle := u32_le (e.block + e.count)
  have hcount := e.count_le_length
  exact ⟨h.1, by omega⟩

theorem mapped_of_not_covers (h : ∀ e ∈ es, ¬e.Covers l) : mapped es l = 0 := by
  have happend : mapped (es ++ []) l = mapped [] l := mapped_append_of_not_covers h
  rwa [append_nil] at happend

theorem bestIndex_split (h : bestIndex records l = some r) :
    ∃ i, records[i]? = some r ∧ r.block ≤ l ∧
      ∀ (j : Nat) (r' : Extent), i < j → records[j]? = some r' → l < r'.block := by
  induction records with
  | nil => cases h
  | cons a records ih =>
    have hlater : ∀ {r'}, bestIndex records l = some r' → some r' = some r →
        ∃ i, (a :: records)[i]? = some r ∧ r.block ≤ l ∧
          ∀ (j : Nat) (r' : Extent), i < j → (a :: records)[j]? = some r' → l < r'.block := by
      rintro r' hbest heq
      obtain ⟨i, hi, hle, hafter⟩ := ih (hbest.trans heq)
      refine ⟨i + 1, by simpa using hi, hle, fun j r' hj hr' => ?_⟩
      obtain ⟨j, rfl⟩ : ∃ m, j = m + 1 := ⟨j - 1, by omega⟩
      exact hafter j r' (by omega) (by simpa using hr')
    unfold bestIndex at h hlater
    rw [filter_cons] at h
    split_ifs at h with ha
    · rw [List.getLast?_cons] at h
      cases hbest : (records.filter (·.block ≤ l)).getLast? with
      | some r' =>
        rw [hbest] at h
        exact hlater hbest h
      | none =>
        rw [hbest] at h
        obtain rfl := Option.some.inj h
        refine ⟨0, rfl, of_decide_eq_true ha, fun j r' hj hr' => ?_⟩
        obtain ⟨j, rfl⟩ : ∃ m, j = m + 1 := ⟨j - 1, by omega⟩
        have hnone := List.filter_eq_nil_iff.1 (List.getLast?_eq_none_iff.1 hbest) r'
          (mem_of_getElem? (by simpa using hr'))
        simpa using hnone
    · exact hlater h rfl

theorem bestIndex_none (h : bestIndex records l = none) : ∀ r ∈ records, l < r.block := by
  intro r hr
  have hnone := List.filter_eq_nil_iff.1 (List.getLast?_eq_none_iff.1 h) r hr
  simpa using hnone

/-- The descent finds what a search through all extents finds. -/
theorem ExtentTree.lookup (h : ExtentTree d.blocks k node es) (hfuel : k < fuel) :
    extentBlockNumberFromNode fuel node l d = some (.ok (mapped es l)) := by
  induction h generalizing fuel with
  | leaf hmagic hdepth =>
    obtain ⟨fuel, rfl⟩ : ∃ m, fuel = m + 1 := ⟨fuel - 1, by omega⟩
    rw [extentBlockNumberFromNode, if_neg (by simp [hmagic]), if_pos hdepth]
    rfl
  | @index k node children hmagic hdepth hsorted htrees hfrom hto ih =>
    obtain ⟨fuel, rfl⟩ : ∃ m, fuel = m + 1 := ⟨fuel - 1, by omega⟩
    rw [extentBlockNumberFromNode, if_neg (by simp [hmagic]), if_neg (by omega)]
    cases hbest : bestIndex node.records l with
    | none =>
      have hlate := bestIndex_none hbest
      have hnone : ∀ e ∈ (List.range node.records.length).flatMap children, ¬e.Covers l := by
        intro e he hcovers
        obtain ⟨i, hi, he⟩ := List.mem_flatMap.1 he
        have hr := List.getElem?_eq_getElem (List.mem_range.1 hi)
        have hblock := hfrom i _ hr e he
        have := hlate _ (mem_of_getElem? hr)
        have := hcovers.1
        omega
      rw [mapped_of_not_covers hnone]
      rfl
    | some r =>
      obtain ⟨i, hi, hle, hafter⟩ := bestIndex_split hbest
      obtain ⟨hlt, -⟩ := List.getElem?_eq_some_iff.1 hi
      obtain ⟨m, hm⟩ : ∃ m, node.records.length = i + (1 + m) :=
        ⟨node.records.length - i - 1, by omega⟩
      have hbefore : ∀ e ∈ (List.range i).flatMap children, ¬e.Covers l := by
        intro e he hcovers
        obtain ⟨j, hj, he⟩ := List.mem_flatMap.1 he
        rw [mem_range] at hj
        have hr := List.getElem?_eq_getElem (show j + 1 < node.records.length by omega)
        have hend := hto j _ hr e he
        have hkey : (node.records[j + 1]).block ≤ r.block := by
          rcases Nat.eq_or_lt_of_le (show j + 1 ≤ i by omega) with rfl | hji
          · rw [hr] at hi
            rw [Option.some.inj hi]
          · obtain ⟨hlt', hri⟩ := List.getElem?_eq_some_iff.1 hi
            have := List.pairwise_iff_getElem.1 hsorted (j + 1) i (by omega) hlt' hji
            rw [hri] at this
            omega
        have := hcovers.spans.2
        omega
      have hlater : ∀ e ∈ (List.range m).flatMap (fun j => children (i + (1 + j))),
          ¬e.Covers l := by
        intro e he hcovers
        obtain ⟨j, hj, he⟩ := List.mem_flatMap.1 he
        rw [mem_range] at hj
        have hr := List.getElem?_eq_getElem (show i + (1 + j) < node.records.length by omega)
        have hblock := hfrom _ _ hr e he
        have := hafter _ _ (by omega) hr
        have := hcovers.1
        omega
      have hsplit : (List.range node.records.length).flatMap children =
          (List.range i).flatMap children ++
            (children i ++ (List.range m).flatMap fun j => children (i + (1 + j))) := by
        rw [hm, range_add, range_add]
        simp [flatMap_append, flatMap_map, Nat.add_assoc]
      have hzero : mapped ((List.range m).flatMap fun j => children (i + (1 + j))) l =
          mapped [] l := mapped_of_not_covers hlater
      have hchild :
    mapped (children i ++ (List.range m).flatMap fun j => children (i + (1 + j))) l =
          mapped (children i) l := by
        refine (mapped_congr_append hzero).trans ?_
        rw [append_nil]
      rw [hsplit, mapped_append_of_not_covers hbefore, hchild]
      exact ih i r hi (by omega)

/-! ## The block of the format -/

section
variable (hsorted : es.Pairwise fun e e' => e.block + e.length ≤ e'.block) (he : e ∈ es) (hspans : e.Spans l)
include hsorted he hspans

theorem mapped_of_spans : mapped es l = if e.Covers l then e.physical l else 0 := by
  induction es with
  | nil => cases he
  | cons a es ih =>
    obtain ⟨hfirst, hrest⟩ := List.pairwise_cons.1 hsorted
    rw [mapped_cons]
    rcases List.mem_cons.1 he with rfl | he
    · have hlater : ∀ e' ∈ es, ¬e'.Covers l := by
        intro e' he' hcovers
        have := hfirst e' he'
        have := hspans.2
        have := hcovers.1
        omega
      rw [mapped_of_not_covers hlater]
      rfl
    · have hno : ¬a.Covers l := by
        intro hcovers
        have := hfirst e he
        have := hspans.1
        have := hcovers.spans.2
        omega
      rw [if_neg hno]
      exact ih hrest he

/-- Disjoint extents: the search stops at the one that has the block. -/
theorem find_of_spans : es.find? (·.Spans l) = some e := by
  induction es with
  | nil => cases he
  | cons a es ih =>
    obtain ⟨hfirst, hrest⟩ := List.pairwise_cons.1 hsorted
    rcases List.mem_cons.1 he with rfl | he
    · exact List.find?_cons_of_pos (decide_eq_true hspans)
    · have hno : ¬a.Spans l := by
        intro ha
        have := hfirst e he
        have := hspans.1
        have := ha.2
        omega
      rw [List.find?_cons_of_neg (by simpa using hno)]
      exact ih hrest he

end

/-- A length field of `2 ^ 15` is read as zero, and the end of an extent must fit into 32 bits. -/
theorem Extent.covers_iff (hspans : e.Spans l) (hlen : e.len < 2 ^ 16)
    (hend : e.block + e.length ≤ 2 ^ 32) :
    e.Covers l ↔ e.len ≠ 2 ^ 15 ∧ e.block + e.length < 2 ^ 32 := by
  obtain ⟨hle, hlt⟩ := hspans
  unfold Covers count u32
  unfold length at hlt hend ⊢
  by_cases hwritten : e.len ≤ 2 ^ 15
  · rw [if_pos hwritten] at hlt hend ⊢
    omega
  · rw [if_neg hwritten] at hlt hend ⊢
    omega

/-- The byte that a mapped block gives is that of the format. -/
theorem blockByte_iff (hsorted : es.Pairwise fun e e' => e.block + e.length ≤ e'.block)
    (hlen : ∀ e ∈ es, e.len < 2 ^ 16) (hends : ∀ e ∈ es, e.block + e.length ≤ 2 ^ 32) :
    (if mapped es l = 0 then 0 else d.blocks (mapped es l) i) = formatBlockByte d es l i ↔
      ∀ e ∈ es, e.Spans l → e.ReadRight l ∨ d.blocks (e.physical l) i = 0 := by
  unfold formatBlockByte
  cases hfind : es.find? (·.Spans l) with
  | none =>
    have hno : ∀ e ∈ es, ¬e.Spans l := by simpa using List.find?_eq_none.1 hfind
    rw [mapped_of_not_covers fun e he hcovers => hno e he hcovers.spans]
    exact ⟨fun _ e he hspans => absurd hspans (hno e he), fun _ => rfl⟩
  | some e =>
    have he := mem_of_find?_eq_some hfind
    have hspans : e.Spans l := by simpa using List.find?_some hfind
    have honly : ∀ e' ∈ es, e'.Spans l → e' = e := by
      intro e' he' hspans'
      rw [find_of_spans hsorted he' hspans'] at hfind
      exact Option.some.inj hfind
    have hcovers := Extent.covers_iff hspans (hlen e he) (hends e he)
    rw [mapped_of_spans hsorted he hspans]
    unfold Extent.ReadRight
    by_cases hwritten : e.len ≤ 2 ^ 15
    · have hlength : e.length = e.len := if_pos hwritten
      by_cases hc : e.Covers l
      · have hright := hcovers.1 hc
        grind
      · grind
    · by_cases hc : e.Covers l
      · have hright := hcovers.1 hc
        grind
      · grind

/-! ## The loop -/

/-- The loop comes to its end when fewer than `2 ^ 32` bytes are left. -/
theorem ends_of_lt (hleft : size - done < 2 ^ 32) (hfuel : size - done < fuel) :
    Ends g offset size fuel done := by
  induction fuel generalizing done with
  | zero => omega
  | succ fuel ih =>
    by_cases hend : size ≤ done
    · exact .inl hend
    · have hmod := Nat.mod_lt (offset + done) g.blockSize_pos
      have hcopy : copyLen g offset size done ≠ 0 := by
        unfold copyLen u32
        omega
      exact .inr ⟨hcopy, ih (by omega) (by omega)⟩

/-- With more to go it meets a multiple of `2 ^ 32` on its way down. -/
theorem readLoop_lt {out : Nat → UInt8} {result : Nat × (Nat → UInt8)}
    (hx : readLoop g I offset size fuel done out d = some (.ok result)) : size - done < 2 ^ 32 := by
  induction fuel generalizing done out with
  | zero => cases hx
  | succ fuel ih =>
    unfold readLoop at hx
    by_cases hend : size ≤ done
    · omega
    · rw [if_neg hend] at hx
      obtain ⟨b, -, hx⟩ := Query.bind_eq_ok.1 hx
      have hcopy : min (u32 (size - done)) (g.blockSize - (offset + done) % g.blockSize) =
          copyLen g offset size done := rfl
      simp only [Query.bind_apply, Query.read_apply, hcopy] at hx
      split at hx
      · cases hx
      · have hleft := ih hx
        have hle : copyLen g offset size done ≤ u32 (size - done) := Nat.min_le_left ..
        unfold u32 at hle
        omega

/-! ## `read_inode_data` -/

/-- The bytes a read is to return. -/
def remaining (I : Inode) (offset size : Nat) : Nat := min (I.size - offset) size

/-- A read returns the bytes of the format. -/
def Decodes (g : Geometry) (d : Disk) (I : Inode) (es : List Extent) (offset size : Nat) : Prop :=
  ∃ out, readInodeData g I offset size d = some (.ok (remaining I offset size, out)) ∧
    ∀ i < remaining I offset size, out i = formatByte g d es (offset + i)

theorem readInodeData_remaining : readInodeData g I offset size d =
    readInodeData g I offset (remaining I offset size) d := by
  unfold readInodeData remaining
  rw [← Nat.min_assoc, Nat.min_self]

theorem ExtentTree.depth_eq (h : ExtentTree blocks k node es) : node.depth = k := by
  cases h <;> assumption

theorem ExtentMap.byteAt_eq (h : ExtentMap g d I es) (hoff : off < I.size) :
    byteAt g I off d = some (.ok
      (if mapped es (off / g.blockSize) = 0 then 0
        else d.blocks (mapped es (off / g.blockSize)) (off % g.blockSize))) := by
  obtain ⟨node, harea, hdepth, k, htree⟩ := h.tree
  have hk := htree.depth_eq
  have hblock : off / g.blockSize < 2 ^ 32 := by
    have := h.size
    refine Nat.div_lt_of_lt_mul ?_
    omega
  have hfile : fileBlockNumber I (u32 (off / g.blockSize)) d =
      some (.ok (mapped es (off / g.blockSize))) := by
    rw [u32, Nat.mod_eq_of_lt hblock, fileBlockNumber, harea]
    exact htree.lookup (by unfold nodeFuel; omega)
  exact blockByte_of_file hfile

/-- A read of a file of the format returns what the format says if and only if less than
`2 ^ 32` bytes are to be read, and each of them lies in a hole, in a block read right, or on a
physical byte that is zero. -/
theorem decodes_iff (hmap : ExtentMap g d I es) (offset size : Nat) :
    Decodes g d I es offset size ↔ remaining I offset size < 2 ^ 32 ∧
      ∀ i < remaining I offset size, ∀ e ∈ es, e.Spans ((offset + i) / g.blockSize) →
        e.ReadRight ((offset + i) / g.blockSize) ∨
          d.blocks (e.physical ((offset + i) / g.blockSize)) ((offset + i) % g.blockSize) = 0 := by
  have hbyte : ∀ i < remaining I offset size, byteAt g I (offset + i) d = some (.ok
      (if mapped es ((offset + i) / g.blockSize) = 0 then 0
        else d.blocks (mapped es ((offset + i) / g.blockSize)) ((offset + i) % g.blockSize))) := by
    intro i hi
    unfold remaining at hi
    exact hmap.byteAt_eq (by omega)
  have hiff : ∀ i < remaining I offset size, ((if mapped es ((offset + i) / g.blockSize) = 0 then 0
        else d.blocks (mapped es ((offset + i) / g.blockSize)) ((offset + i) % g.blockSize)) =
          formatByte g d es (offset + i) ↔
        ∀ e ∈ es, e.Spans ((offset + i) / g.blockSize) → e.ReadRight ((offset + i) / g.blockSize) ∨
            d.blocks (e.physical ((offset + i) / g.blockSize))
              ((offset + i) % g.blockSize) = 0) :=
    fun i _ => blockByte_iff hmap.sorted (fun e he => (hmap.field e he).2) hmap.ends
  constructor
  · rintro ⟨out, hread, hout⟩
    rw [readInodeData_remaining] at hread
    have hgot := readInodeData_bytes hread
    refine ⟨?_, fun i hi => (hiff i hi).1 ?_⟩
    · unfold readInodeData at hread
      split at hread
      case isTrue hempty =>
        unfold remaining
        omega
      case isFalse =>
        have hsame : min (I.size - offset) (remaining I offset size) = remaining I offset size := by
          unfold remaining
          omega
        rw [hsame] at hread
        exact readLoop_lt hread
    · have hboth := (hbyte i hi).symm.trans (hgot i hi)
      rw [← hout i hi]
      exact Except.ok.inj (Option.some.inj hboth)
  · rintro ⟨hlt, hright⟩
    by_cases hempty : I.size ≤ offset
    · have hzero : remaining I offset size = 0 := by
        unfold remaining
        omega
      refine ⟨fun _ => 0, ?_, fun i hi => by omega⟩
      rw [readInodeData, if_pos hempty, hzero]
      rfl
    · obtain ⟨out, hread, hout⟩ := @readInodeData_ok g d I offset (remaining I offset size)
        (fun i => formatByte g d es (offset + i)) (by unfold remaining; omega)
        (ends_of_lt (by omega) (by omega)) fun i hi => by
          rw [hbyte i hi, (hiff i hi).2 (hright i hi)]
      exact ⟨out, readInodeData_remaining.trans hread, hout⟩

/-- Block 30 is a leaf with one block, 40, for the file whose index names it. -/
def indexedBlocks (b : Nat) : Nat → UInt8 :=
  if b = 30 then fun i => [0x0a, 0xf3, 1, 0, 4, 0, 0, 0, 0, 0, 0, 0,
    0, 0, 0, 0, 1, 0, 0, 0, 40, 0, 0, 0].getD i 0
  else if b = 40 then fun _ => 7
  else fun _ => 0

def indexedDisk : Disk := { oneFile with blocks := indexedBlocks }

def indexedInode : Inode :=
  { mode := 0x81a4, size := 2048, area := .extents ⟨extentHeaderMagic, 4, 1, [⟨0, 30, 0, 0⟩]⟩ }

theorem indexedInode_map : ExtentMap smallVolume indexedDisk indexedInode [⟨0, 1, 0, 40⟩] where
  tree := by
    refine ⟨⟨extentHeaderMagic, 4, 1, [⟨0, 30, 0, 0⟩]⟩, rfl, by decide, 1, ?_⟩
    have hleaf : ExtentTree indexedBlocks 0 (parseNode (indexedBlocks 30)) [⟨0, 1, 0, 40⟩] :=
      .leaf (by decide) (by decide)
    have htree : ExtentTree indexedBlocks 1 ⟨extentHeaderMagic, 4, 1, [⟨0, 30, 0, 0⟩]⟩
        ((List.range 1).flatMap fun _ => [⟨0, 1, 0, 40⟩]) := by
      refine .index rfl rfl (pairwise_singleton ..) ?_ ?_ ?_
      · rintro (_ | i) r hr
        · cases hr
          exact hleaf
        · cases hr
      · rintro (_ | i) r hr e he
        · cases hr
          exact Nat.zero_le _
        · cases hr
      · rintro i r hr
        cases hr
    exact htree
  sorted := pairwise_singleton ..
  field := by decide
  ends := by decide
  size := by decide

/-- A hundred bytes at the end of the first block and from the hole behind it. -/
theorem decodes_indexed :
    Decodes smallVolume indexedDisk indexedInode [⟨0, 1, 0, 40⟩] 1000 100 := by
  refine (decodes_iff indexedInode_map 1000 100).2 ⟨by decide, fun i _ e he hspans => .inl ?_⟩
  obtain rfl : e = ⟨0, 1, 0, 40⟩ := by simpa using he
  generalize (1000 + i) / smallVolume.blockSize = l at hspans ⊢
  obtain rfl : l = 0 := by
    have hlt := hspans.2
    simpa [Extent.length] using hlt
  unfold Extent.ReadRight
  decide

/-- A file of one block whose extent has the given length field. -/
def fieldInode (len : Nat) : Inode :=
  { mode := 0x81a4, size := 1024, area := .extents ⟨extentHeaderMagic, 4, 0, [⟨0, len, 0, 40⟩]⟩ }

/-- A field of `2 ^ 15` is for written blocks, and reads as a hole. -/
example : (readInodeData smallVolume (fieldInode (2 ^ 15)) 0 1 indexedDisk).bind
    (fun out => (out.map fun read => read.2 0).toOption) = some 0 := by decide +kernel

/-- A field of `2 ^ 15 + 1` is for one block not written, and reads what the block has. -/
theorem not_decodes_unwritten : ¬∀ (g : Geometry) (d : Disk) (I : Inode) (es : List Extent),
    ExtentMap g d I es → ∀ offset size, Decodes g d I es offset size := by
  intro hall
  have hmap : ExtentMap smallVolume indexedDisk (fieldInode (2 ^ 15 + 1))
      [⟨0, 2 ^ 15 + 1, 0, 40⟩] :=
    { tree := ⟨_, rfl, by decide, 0, .leaf rfl rfl⟩
      sorted := List.pairwise_singleton ..
      field := by decide
      ends := by decide
      size := by decide }
  obtain ⟨out, hread, hout⟩ := hall _ _ _ _ hmap 0 1
  have hrun : (readInodeData smallVolume (fieldInode (2 ^ 15 + 1)) 0 1 indexedDisk).bind
      (fun out => (out.map fun read => read.2 0).toOption) = some 7 := by decide +kernel
  rw [hread] at hrun
  have hseven : out 0 = 7 := Option.some.inj hrun
  have hzero := hout 0 (by decide)
  rw [hseven] at hzero
  exact absurd hzero (by decide +kernel)

end RadKernel.Ext4
