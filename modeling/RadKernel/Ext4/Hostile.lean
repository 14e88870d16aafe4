import RadKernel.Ext4.Image
import RadKernel.Lib.Walk

/-!
# Which images keep the reads in their buffers

The counts of records, the depths, the pointers to child nodes and the sizes of the groups are taken
from the image as they are. The descent to a block ends if the pointers come to an end, whatever the
depths say, and reads a node as far as its count of records goes; the searches for a clear bit test
as many bits as the superblock says.
-/

namespace RadKernel.Ext4.Image

open Kernel

variable {dev : Device} {ctx : Context} {buffer : Nat → UInt8} {node bitmap node' : Region}
  {inode : Inode} {kind : Kind} {stop skip : Nat → Bool} {logical left group fuel i n : Nat}
  {α β : Type} {desc : GroupDesc}

theorem ok_bind (a : α) (f : α → Except Failure β) :
    ((.ok a : Except Failure α) >>= f) = f a := rfl

theorem error_bind (e : Failure) (f : α → Except Failure β) :
    ((.error e : Except Failure α) >>= f) = .error e := rfl

/-! ## Leaves -/

/-- Record `i` read as an extent has the block. -/
def covers (node : Region) (logical i : Nat) : Prop :=
  le32 node.bytes (recordOffset i) ≤ logical ∧ logical <
    u32 (le32 node.bytes (recordOffset i) + le16 node.bytes (recordOffset i + 4) % 2 ^ 15)

instance : Decidable (covers node logical i) := inferInstanceAs (Decidable (_ ∧ _))

/-- The block and the length of every record up to the first that has the block lie in the buffer,
and so does all of that one. -/
def LeafFits (node : Region) (logical first count : Nat) : Prop :=
  ∀ i, first ≤ i → i < count → (∀ j, first ≤ j → j < i → ¬covers node logical j) →
    recordOffset i + 6 ≤ node.size ∧ (covers node logical i → recordOffset i + 12 ≤ node.size)

theorem leafFits_succ : LeafFits node logical i (i + (left + 1)) ↔
    recordOffset i + 6 ≤ node.size ∧ (covers node logical i → recordOffset i + 12 ≤ node.size) ∧
      (¬covers node logical i → LeafFits node logical (i + 1) (i + 1 + left)) := by
  constructor
  · intro h
    obtain ⟨hroom, hall⟩ := h i (Nat.le_refl _) (by omega) fun j hle hlt => by omega
    refine ⟨hroom, hall, fun hno k hle hlt hbefore => h k (by omega) (by omega) fun j hj hjk => ?_⟩
    rcases Nat.eq_or_lt_of_le hj with rfl | hj
    · exact hno
    · exact hbefore j hj hjk
  · rintro ⟨hroom, hall, hrest⟩ k hle hlt hbefore
    rcases Nat.eq_or_lt_of_le hle with rfl | hle
    · exact ⟨hroom, hall⟩
    · exact hrest (hbefore i (Nat.le_refl _) hle) k hle (by omega)
        fun j hj hjk => hbefore j (by omega) hjk

/-- The loop over the extents leaves the buffer if and only if a record it looks at does. -/
theorem searchLeaf_inside : searchLeaf node logical left i ≠ .error .outOfBounds ↔
    LeafFits node logical i (i + left) := by
  induction left generalizing i with
  | zero => exact ⟨fun _ k hk hlt => by omega, fun _ => by simp [searchLeaf]⟩
  | succ left ih =>
    rw [leafFits_succ, ← ih, searchLeaf]
    unfold Region.u32 Region.u16
    by_cases hroom : recordOffset i + 6 ≤ node.size
    · rw [if_pos (show recordOffset i + 4 ≤ node.size by omega),
        if_pos (show recordOffset i + 4 + 2 ≤ node.size by omega), ok_bind, ok_bind]
      dsimp only
      split
      case isTrue h =>
        have hcovers : covers node logical i := h
        by_cases hall : recordOffset i + 12 ≤ node.size
        · rw [if_pos (show recordOffset i + 6 + 2 ≤ node.size by omega),
            if_pos (show recordOffset i + 8 + 4 ≤ node.size by omega), ok_bind, ok_bind]
          simp [hroom, hall, hcovers, pure, Except.pure]
        · rw [if_neg (show ¬recordOffset i + 8 + 4 ≤ node.size by omega)]
          by_cases hhi : recordOffset i + 6 + 2 ≤ node.size
          · rw [if_pos hhi, ok_bind, error_bind]
            simp [hcovers, hall]
          · rw [if_neg hhi, error_bind]
            simp [hcovers, hall]
      case isFalse h =>
        have hno : ¬covers node logical i := h
        simp [hroom, hno]
    · by_cases hblock : recordOffset i + 4 ≤ node.size
      · rw [if_pos hblock, if_neg (show ¬recordOffset i + 4 + 2 ≤ node.size by omega), ok_bind,
          error_bind]
        simp [hroom]
      · rw [if_neg hblock, error_bind]
        simp [hroom]

/-! ## Index nodes -/

/-- The last record of an index node that does not start behind the block. -/
def bestRecord (node : Region) (logical : Nat) : Option Nat :=
  ((List.range (le16 node.bytes 2)).filter fun i =>
    le32 node.bytes (recordOffset i) ≤ logical).getLast?

theorem searchIndex_eq (hroom : ∀ k, i ≤ k → k < i + left → recordOffset k + 4 ≤ node.size)
    (first : Option Nat) : searchIndex node logical left i first =
      .ok ((((List.range' i left).filter fun k =>
        le32 node.bytes (recordOffset k) ≤ logical).getLast?).or first) := by
  induction left generalizing i first with
  | zero => simp [searchIndex]
  | succ left ih =>
    have hhere : node.u32 (recordOffset i) = .ok (le32 node.bytes (recordOffset i)) :=
      if_pos (hroom i (Nat.le_refl _) (by omega))
    unfold searchIndex
    rw [hhere, List.range'_succ]
    simp only [bind, Except.bind]
    rw [ih (fun k hle hlt => hroom k (by omega) (by omega))]
    by_cases hle : le32 node.bytes (recordOffset i) ≤ logical
    · rw [List.filter_cons_of_pos (by simpa using hle), if_pos hle, List.getLast?_cons]
      cases ((List.range' (i + 1) left).filter fun k =>
        le32 node.bytes (recordOffset k) ≤ logical).getLast? <;> rfl
    · rw [List.filter_cons_of_neg (by simpa using hle), if_neg hle]

theorem searchIndex_outside (hroom : ∃ k, i ≤ k ∧ k < i + left ∧ node.size < recordOffset k + 4)
    (first : Option Nat) : searchIndex node logical left i first = .error .outOfBounds := by
  induction left generalizing i first with
  | zero =>
    omega
  | succ left ih =>
    unfold searchIndex Region.u32
    obtain ⟨k, hle, hlt, hsize⟩ := hroom
    by_cases hhere : recordOffset i + 4 ≤ node.size
    · rw [if_pos hhere]
      have hne : k ≠ i := by
        rintro rfl
        omega
      exact ih ⟨k, by omega, by omega, hsize⟩ _
    · rw [if_neg hhere]
      rfl

/-- The block record `i` of an index node names. -/
def leafOf (node : Region) (i : Nat) : Nat :=
  le16 node.bytes (recordOffset i + 8) * 2 ^ 32 + le32 node.bytes (recordOffset i + 4)

/-- The block fields of all records lie in the buffer, and so does the pointer that is followed. -/
def IndexFits (node : Region) (logical : Nat) : Prop :=
  (∀ i < le16 node.bytes 2, recordOffset i + 4 ≤ node.size) ∧
    ∀ i, bestRecord node logical = some i → recordOffset i + 10 ≤ node.size

theorem searchIndex_all (h : ∀ i < le16 node.bytes 2, recordOffset i + 4 ≤ node.size) :
    searchIndex node logical (le16 node.bytes 2) 0 none = .ok (bestRecord node logical) := by
  rw [searchIndex_eq (fun k _ hlt => h k (by omega)), Option.or_none, ← List.range_eq_range']
  rfl

theorem childBlock_inside (h : IndexFits node logical) :
    childBlock node logical = .ok ((bestRecord node logical).map (leafOf node)) := by
  unfold childBlock
  rw [searchIndex_all h.1]
  simp only [bind, Except.bind]
  cases hbest : bestRecord node logical with
  | none => rfl
  | some i =>
    have hroom := h.2 i hbest
    simp only [Region.u32, Region.u16]
    rw [if_pos (by omega), if_pos (by omega)]
    rfl

theorem childBlock_outside (h : ¬IndexFits node logical) :
    childBlock node logical = .error .outOfBounds := by
  unfold childBlock
  by_cases hall : ∀ i < le16 node.bytes 2, recordOffset i + 4 ≤ node.size
  · rw [searchIndex_all hall]
    have hex : ∃ i, bestRecord node logical = some i ∧ node.size < recordOffset i + 10 := by
      by_contra hno
      refine h ⟨hall, fun i hi => ?_⟩
      by_contra hlt
      exact hno ⟨i, hi, by omega⟩
    obtain ⟨i, hbest, hlt⟩ := hex
    simp only [bind, Except.bind, hbest, Region.u32, Region.u16]
    rw [if_neg (show ¬recordOffset i + 8 + 2 ≤ node.size by omega)]
    split
    case h_1 heq =>
      split at heq
      · cases heq
      · cases heq
        rfl
    case h_2 => rfl
  · push Not at hall
    obtain ⟨i, hi, hlt⟩ := hall
    rw [searchIndex_outside ⟨i, by omega, by omega, hlt⟩]
    rfl

/-! ## The descent -/

/-- The reads of one node stay in the buffer. -/
def NodeFits (node : Region) (logical : Nat) : Prop :=
  le16 node.bytes 0 = extentHeaderMagic →
    if le16 node.bytes 6 = 0 then LeafFits node logical 0 (le16 node.bytes 2)
    else IndexFits node logical

/-- The node the descent goes on with: none behind a leaf, a node without the magic number or
without a record for the block, and a pointer to a block that cannot be read. -/
def nextNode (dev : Device) (ctx : Context) (buffer : Nat → UInt8) (logical : Nat) (node : Region) :
    Option Region :=
  if le16 node.bytes 0 = extentHeaderMagic ∧ le16 node.bytes 6 ≠ 0 then
    (bestRecord node logical).bind fun i =>
      (readBlock dev ctx (leafOf node i)).toOption.map (extentBlock ctx buffer)
  else none

/-- The pointers from a node on come to an end, and all nodes on the way fit. -/
inductive Descends (dev : Device) (ctx : Context) (buffer : Nat → UInt8) (logical : Nat) :
    Region → Prop
  | last {node : Region} (fits : NodeFits node logical)
      (hnext : nextNode dev ctx buffer logical node = none) : Descends dev ctx buffer logical node
  | next {node node' : Region} (fits : NodeFits node logical)
      (hnext : nextNode dev ctx buffer logical node = some node')
      (rest : Descends dev ctx buffer logical node') : Descends dev ctx buffer logical node

theorem diskRead_inside (offset size : Nat) : diskRead dev offset size ≠ .error .outOfBounds := by
  unfold diskRead
  simp only [bind, Except.bind]
  cases (List.range' (offset / 512) ((offset % 512 + size + 511) / 512)).mapM dev <;>
    simp [Except.mapError, pure, Except.pure]

theorem readGroupDesc_inside (group : Nat) : readGroupDesc dev ctx group ≠ .error .outOfBounds := by
  unfold readGroupDesc
  simp only [bind, Except.bind]
  cases hread : diskRead dev (ctx.groupDescOffset + group * ctx.groupDescSize) 32 with
  | error failure =>
    intro h
    cases h
    exact diskRead_inside _ _ hread
  | ok bytes => simp [pure, Except.pure]

/-- A node that does not fit is read behind its end. -/
theorem run_outside (h : ¬NodeFits node logical) :
    extentBlockNumberFromNode dev ctx buffer logical (fuel + 1) node =
      some (.error .outOfBounds) := by
  obtain ⟨hmagic, hno⟩ := Classical.not_imp.1 h
  rw [extentBlockNumberFromNode, if_neg (not_not.2 hmagic)]
  by_cases hdepth : le16 node.bytes 6 = 0
  · rw [if_pos hdepth] at hno ⊢
    rw [← Nat.zero_add (le16 node.bytes 2), ← searchLeaf_inside, not_not] at hno
    rw [hno]
  · rw [if_neg hdepth] at hno ⊢
    rw [childBlock_outside hno]

theorem run_child {b : Nat} (hmagic : le16 node.bytes 0 = extentHeaderMagic)
    (hdepth : ¬le16 node.bytes 6 = 0) (hchild : childBlock node logical = .ok (some b)) :
    extentBlockNumberFromNode dev ctx buffer logical (fuel + 1) node =
      match readBlock dev ctx b with
      | .error failure => some (.error failure)
      | .ok bytes =>
        extentBlockNumberFromNode dev ctx buffer logical fuel (extentBlock ctx buffer bytes) := by
  rw [extentBlockNumberFromNode, if_neg (not_not.2 hmagic), if_neg hdepth]
  cases hread : readBlock dev ctx b with
  | error failure => simp only [hchild, hread]
  | ok bytes => simp only [hchild, hread]

/-- The pointer of the record found. -/
theorem childBlock_some (h : IndexFits node logical) (hbest : bestRecord node logical = some i) :
    childBlock node logical = .ok (some (leafOf node i)) := by
  rw [childBlock_inside h, hbest]
  rfl

theorem run_last (h : NodeFits node logical) (hnext : nextNode dev ctx buffer logical node = none) :
    ∃ r, extentBlockNumberFromNode dev ctx buffer logical (fuel + 1) node = some r ∧
      r ≠ .error .outOfBounds := by
  by_cases hmagic : le16 node.bytes 0 = extentHeaderMagic
  · have hfits := h hmagic
    by_cases hdepth : le16 node.bytes 6 = 0
    · rw [if_pos hdepth, ← Nat.zero_add (le16 node.bytes 2)] at hfits
      rw [extentBlockNumberFromNode, if_neg (not_not.2 hmagic), if_pos hdepth]
      exact ⟨_, rfl, searchLeaf_inside.2 hfits⟩
    · rw [if_neg hdepth] at hfits
      unfold nextNode at hnext
      rw [if_pos ⟨hmagic, hdepth⟩] at hnext
      cases hbest : bestRecord node logical with
      | none =>
        rw [extentBlockNumberFromNode, if_neg (not_not.2 hmagic), if_neg hdepth,
          childBlock_inside hfits, hbest]
        exact ⟨_, rfl, by simp⟩
      | some i =>
        rw [hbest] at hnext
        rw [run_child hmagic hdepth (childBlock_some hfits hbest)]
        cases hread : readBlock dev ctx (leafOf node i) with
        | error failure =>
          have hstatus : failure ≠ .outOfBounds := by
            rintro rfl
            exact diskRead_inside _ _ hread
          exact ⟨_, rfl, by simpa using hstatus⟩
        | ok bytes =>
          rw [Option.bind_some, hread] at hnext
          cases hnext
  · rw [extentBlockNumberFromNode, if_pos hmagic]
    exact ⟨_, rfl, by simp⟩

theorem run_next (h : NodeFits node logical)
    (hnext : nextNode dev ctx buffer logical node = some node') :
    extentBlockNumberFromNode dev ctx buffer logical (fuel + 1) node =
      extentBlockNumberFromNode dev ctx buffer logical fuel node' := by
  unfold nextNode at hnext
  split at hnext
  case isTrue hindex =>
    obtain ⟨hmagic, hdepth⟩ := hindex
    have hfits := h hmagic
    rw [if_neg hdepth] at hfits
    obtain ⟨i, hbest, hread⟩ := Option.bind_eq_some_iff.1 hnext
    rw [run_child hmagic hdepth (childBlock_some hfits hbest)]
    cases hblock : readBlock dev ctx (leafOf node i) with
    | error failure =>
      rw [hblock] at hread
      cases hread
    | ok bytes =>
      rw [hblock] at hread
      have hnode : extentBlock ctx buffer bytes = node' := Option.some.inj hread
      rw [← hnode]
  case isFalse => cases hnext

/-- A descent that returns without leaving a buffer comes to an end. -/
theorem descends_of_run {r : Except Failure Nat}
    (hx : extentBlockNumberFromNode dev ctx buffer logical fuel node = some r)
    (hr : r ≠ .error .outOfBounds) : Descends dev ctx buffer logical node := by
  induction fuel generalizing node with
  | zero => cases hx
  | succ fuel ih =>
    by_cases hfits : NodeFits node logical
    · cases hnext : nextNode dev ctx buffer logical node with
      | none => exact .last hfits hnext
      | some node' =>
        rw [run_next hfits hnext] at hx
        exact .next hfits hnext (ih hx)
    · rw [run_outside hfits] at hx
      cases hx
      exact absurd rfl hr

theorem leafOf_lt (node : Region) (i : Nat) : leafOf node i < 2 ^ 48 := by
  have h8 := (node.bytes (recordOffset i + 8)).toNat_lt
  have h9 := (node.bytes (recordOffset i + 8 + 1)).toNat_lt
  have h4 := (node.bytes (recordOffset i + 4)).toNat_lt
  have h5 := (node.bytes (recordOffset i + 4 + 1)).toNat_lt
  have h6 := (node.bytes (recordOffset i + 4 + 2)).toNat_lt
  have h7 := (node.bytes (recordOffset i + 4 + 2 + 1)).toNat_lt
  unfold leafOf le32 le16
  omega

/-- What a block holds as a node; zeros when it cannot be read. -/
def nodeAt (dev : Device) (ctx : Context) (buffer : Nat → UInt8) (b : Nat) : Region :=
  extentBlock ctx buffer ((readBlock dev ctx b).toOption.getD fun _ => 0)

/-- The node behind the pointer, whether it is followed or not. -/
def stepNode (dev : Device) (ctx : Context) (buffer : Nat → UInt8) (logical : Nat)
    (node : Region) : Region :=
  nodeAt dev ctx buffer (((bestRecord node logical).map (leafOf node)).getD 0)

theorem stepNode_of_next (hnext : nextNode dev ctx buffer logical node = some node') :
    stepNode dev ctx buffer logical node = node' := by
  unfold nextNode at hnext
  split at hnext
  · obtain ⟨i, hbest, hread⟩ := Option.bind_eq_some_iff.1 hnext
    obtain ⟨bytes, hbytes, rfl⟩ := Option.map_eq_some_iff.1 hread
    unfold stepNode nodeAt
    rw [hbest, Option.map_some, Option.getD_some, hbytes, Option.getD_some]
  · cases hnext

theorem Descends.stops (h : Descends dev ctx buffer logical node) :
    ∃ n, nextNode dev ctx buffer logical ((stepNode dev ctx buffer logical)^[n] node) = none := by
  induction h with
  | last fits hnext => exact ⟨0, hnext⟩
  | next fits hnext rest ih =>
    obtain ⟨n, hn⟩ := ih
    refine ⟨n + 1, ?_⟩
    rw [Function.iterate_succ_apply, stepNode_of_next hnext]
    exact hn

theorem Descends.run (h : Descends dev ctx buffer logical node)
    (hn : nextNode dev ctx buffer logical ((stepNode dev ctx buffer logical)^[n] node) = none)
    (hfuel : n < fuel) :
    ∃ r, extentBlockNumberFromNode dev ctx buffer logical fuel node = some r ∧
      r ≠ .error .outOfBounds := by
  induction h generalizing n fuel with
  | last fits hnext =>
    obtain ⟨fuel, rfl⟩ : ∃ k, fuel = k + 1 := ⟨fuel - 1, by omega⟩
    exact run_last fits hnext
  | next fits hnext rest ih =>
    obtain ⟨fuel, rfl⟩ : ∃ k, fuel = k + 1 := ⟨fuel - 1, by omega⟩
    rw [run_next fits hnext]
    cases n with
    | zero =>
      rw [Function.iterate_zero_apply, hnext] at hn
      cases hn
    | succ n =>
      rw [Function.iterate_succ_apply, stepNode_of_next hnext] at hn
      exact ih hn (by omega)

/-- A descent ends within as many steps as there are block numbers of 48 bits. -/
theorem descends_iff : Descends dev ctx buffer logical node ↔
    ∃ r, extentBlockNumberFromNode dev ctx buffer logical nodeFuel node = some r ∧
      r ≠ .error .outOfBounds := by
  classical
  refine ⟨fun h => ?_, fun ⟨r, hx, hr⟩ => descends_of_run hx hr⟩
  have hmaps : ∀ b, stepNode dev ctx buffer logical b ∈
      (Finset.range (2 ^ 48)).image (nodeAt dev ctx buffer) := by
    intro b
    refine Finset.mem_image.2 ⟨_, Finset.mem_range.2 ?_, rfl⟩
    cases bestRecord b logical with
    | none => exact Nat.two_pow_pos 48
    | some i =>
      exact leafOf_lt b i
  obtain ⟨n, hle, hn⟩ := @Walk.stops_within _ _
    (fun b => nextNode dev ctx buffer logical b = none) node _ hmaps h.stops
  have hcard := Finset.card_image_le (s := Finset.range (2 ^ 48)) (f := nodeAt dev ctx buffer)
  rw [Finset.card_range] at hcard
  refine h.run hn ?_
  unfold nodeFuel
  omega

/-! ## Searching for a clear bit -/

/-- The search tests the bit unless it found a clear one before. -/
def Tested (stop skip : Nat → Bool) (bits i : Nat) : Prop :=
  i < bits ∧ (∀ j ≤ i, stop j = false) ∧ skip i = false

/-- Bit `i` of a bitmap. -/
def bit (bitmap : Nat → UInt8) (i : Nat) : Bool := (bitmap (i / 8)).toNat.testBit (i % 8)

/-- The bits up to the first clear one that is tested lie in the block. -/
def SearchFits (bitmap : Region) (stop skip : Nat → Bool) (bits : Nat) : Prop :=
  ∀ i, Tested stop skip bits i → (∀ j < i, Tested stop skip bits j → bit bitmap.bytes j = true) →
    i / 8 < bitmap.size

/-- The bits the search tests are all set. -/
def Full (bitmap : Nat → UInt8) (stop skip : Nat → Bool) (bits : Nat) : Prop :=
  ∀ i, Tested stop skip bits i → bit bitmap i = true

/-- The outcome of a search that went over the bits before `i`. -/
inductive Searched (bitmap : Region) (stop skip : Nat → Bool) (bits : Nat) :
    Except Failure (Option Nat) → Prop
  | outside {i : Nat} (tested : Tested stop skip bits i)
      (before : ∀ j < i, Tested stop skip bits j → bit bitmap.bytes j = true)
      (hout : bitmap.size ≤ i / 8) : Searched bitmap stop skip bits (.error .outOfBounds)
  | found {i : Nat} (tested : Tested stop skip bits i) (clear : bit bitmap.bytes i = false)
      (inside : ∀ j ≤ i, Tested stop skip bits j → j / 8 < bitmap.size) :
      Searched bitmap stop skip bits (.ok (some i))
  | full (full : Full bitmap.bytes stop skip bits)
      (inside : ∀ j, Tested stop skip bits j → j / 8 < bitmap.size) :
      Searched bitmap stop skip bits (.ok none)

theorem firstClear_searched (hstop : ∀ j < i, stop j = false)
    (hset : ∀ j < i, Tested stop skip (i + left) j → bit bitmap.bytes j = true)
    (hin : ∀ j < i, Tested stop skip (i + left) j → j / 8 < bitmap.size) :
    Searched bitmap stop skip (i + left) (firstClear bitmap stop skip left i) := by
  induction left generalizing i with
  | zero =>
    exact .full (fun j hj => hset j hj.1 hj) fun j hj => hin j hj.1 hj
  | succ left ih =>
    rw [firstClear]
    by_cases hstopped : stop i = true
    · rw [if_pos hstopped]
      have hbefore : ∀ j, Tested stop skip (i + (left + 1)) j → j < i := by
        intro j hj
        by_contra hle
        have := hj.2.1 i (by omega)
        simp_all
      exact .full (fun j hj => hset j (hbefore j hj) hj) fun j hj => hin j (hbefore j hj) hj
    · rw [if_neg hstopped]
      rw [show i + (left + 1) = i + 1 + left by omega] at hset hin ⊢
      have hstop' : ∀ j < i + 1, stop j = false := by
        intro j hj
        rcases Nat.lt_succ_iff_lt_or_eq.1 hj with hj | rfl
        · exact hstop j hj
        · simpa using hstopped
      -- what is known of the bits up to `i` once bit `i` is passed
      have hgo : (Tested stop skip (i + 1 + left) i → bit bitmap.bytes i = true) →
          (Tested stop skip (i + 1 + left) i → i / 8 < bitmap.size) →
          Searched bitmap stop skip (i + 1 + left) (firstClear bitmap stop skip left (i + 1)) := by
        intro hbit hroom
        refine ih hstop' (fun j hj htested => ?_) fun j hj htested => ?_
        · rcases Nat.lt_succ_iff_lt_or_eq.1 hj with hj | rfl
          · exact hset j hj htested
          · exact hbit htested
        · rcases Nat.lt_succ_iff_lt_or_eq.1 hj with hj | rfl
          · exact hin j hj htested
          · exact hroom htested
      by_cases hskip : skip i = true
      · rw [if_pos hskip]
        have hno : ¬Tested stop skip (i + 1 + left) i := fun h => by simp [h.2.2] at hskip
        exact hgo (fun h => absurd h hno) fun h => absurd h hno
      · rw [if_neg hskip]
        have htested : Tested stop skip (i + 1 + left) i :=
          ⟨by omega, fun j hj => hstop' j (by omega), by simpa using hskip⟩
        unfold Region.byte
        by_cases hroom : i / 8 < bitmap.size
        · rw [if_pos hroom]
          simp only [bind, Except.bind]
          split
          case isTrue hbit => exact hgo (fun _ => hbit) fun _ => hroom
          case isFalse hbit =>
            refine .found htested (by simpa [bit] using hbit) fun j hj hjt => ?_
            rcases Nat.eq_or_lt_of_le hj with rfl | hj
            · exact hroom
            · exact hin j hj hjt
        · rw [if_neg hroom]
          exact .outside htested hset (by omega)

theorem firstClear_all (bitmap : Region) (stop skip : Nat → Bool) (bits : Nat) :
    Searched bitmap stop skip bits (firstClear bitmap stop skip bits 0) := by
  have h := @firstClear_searched bitmap stop skip bits 0 (fun j hj => by omega)
    (fun j hj => by omega) fun j hj => by omega
  rwa [Nat.zero_add] at h

namespace Searched

variable {bits : Nat} {r : Except Failure (Option Nat)}

theorem inside_iff (h : Searched bitmap stop skip bits r) :
    r ≠ .error .outOfBounds ↔ SearchFits bitmap stop skip bits := by
  cases h with
  | outside tested before hout =>
    refine ⟨fun hne => absurd rfl hne, fun hfits => ?_⟩
    have := hfits _ tested before
    omega
  | @found i tested clear inside =>
    refine ⟨fun _ k hk hbefore => inside k ?_ hk, fun _ => by simp⟩
    by_contra hlt
    have hset := hbefore i (by omega) tested
    rw [clear] at hset
    cases hset
  | full full inside => exact ⟨fun _ k hk _ => inside k hk, fun _ => by simp⟩

/-- A search that stays in the block finds nothing if and only if there is nothing. -/
theorem full_iff (h : Searched bitmap stop skip bits r) (hr : r ≠ .error .outOfBounds) :
    r = .ok none ↔ Full bitmap.bytes stop skip bits := by
  cases h with
  | outside => exact absurd rfl hr
  | @found i tested clear inside =>
    refine ⟨fun h => by simp at h, fun hfull => ?_⟩
    have hset := hfull i tested
    rw [clear] at hset
    cases hset
  | full full inside => exact ⟨fun _ => full, fun _ => rfl⟩

end Searched

/-- The search of the group finds nothing. -/
def GroupFull (dev : Device) (ctx : Context) (kind : Kind) (group : Nat) : Prop :=
  ∃ desc, readGroupDesc dev ctx group = .ok desc ∧ (kind.free desc = 0 ∨
    ∃ bytes, readBlock dev ctx (kind.bitmap desc) = .ok bytes ∧
      Full bytes (kind.stop group) (kind.skip group) (kind.bits group))

/-- The search of the group stays in the block of the bitmap. -/
def GroupFits (dev : Device) (ctx : Context) (kind : Kind) (group : Nat) : Prop :=
  ∀ desc bytes, readGroupDesc dev ctx group = .ok desc → kind.free desc ≠ 0 →
    readBlock dev ctx (kind.bitmap desc) = .ok bytes →
    SearchFits ⟨bytes, ctx.blockSize⟩ (kind.stop group) (kind.skip group) (kind.bits group)

/-- Every group that is searched, those before it being full, fits. -/
def BitsFit (dev : Device) (ctx : Context) (kind : Kind) (first count : Nat) : Prop :=
  ∀ group, first ≤ group → group < count →
    (∀ k, first ≤ k → k < group → GroupFull dev ctx kind k) → GroupFits dev ctx kind group

theorem bitsFit_succ : BitsFit dev ctx kind group (group + (left + 1)) ↔
    GroupFits dev ctx kind group ∧ (GroupFull dev ctx kind group →
      BitsFit dev ctx kind (group + 1) (group + 1 + left)) := by
  constructor
  · intro h
    refine ⟨h group (Nat.le_refl _) (by omega) fun k hle hlt => by omega,
      fun hfull k hle hlt hbefore => h k (by omega) (by omega) fun j hj hjk => ?_⟩
    rcases Nat.eq_or_lt_of_le hj with rfl | hj
    · exact hfull
    · exact hbefore j hj hjk
  · rintro ⟨hhere, hrest⟩ k hle hlt hbefore
    rcases Nat.eq_or_lt_of_le hle with rfl | hle
    · exact hhere
    · exact hrest (hbefore group (Nat.le_refl _) hle) k hle (by omega)
        fun j hj hjk => hbefore j (by omega) hjk

variable {bytes : Nat → UInt8}

section
variable (hdesc : readGroupDesc dev ctx group = .ok desc) (hfree : kind.free desc ≠ 0)
  (hblock : readBlock dev ctx (kind.bitmap desc) = .ok bytes)
include hdesc hfree hblock

theorem groupFits_iff : GroupFits dev ctx kind group ↔
      SearchFits ⟨bytes, ctx.blockSize⟩ (kind.stop group) (kind.skip group) (kind.bits group) := by
  unfold GroupFits
  grind

theorem groupFull_iff : GroupFull dev ctx kind group ↔
      Full bytes (kind.stop group) (kind.skip group) (kind.bits group) := by
  unfold GroupFull
  grind

end

/-- The search over the groups leaves a bitmap if and only if a group it gets to does not fit. -/
theorem findClear_inside : findClear dev ctx kind left group ≠ .error .outOfBounds ↔
    BitsFit dev ctx kind group (group + left) := by
  induction left generalizing group with
  | zero => exact ⟨fun _ k hk hlt => by omega, fun _ => by simp [findClear]⟩
  | succ left ih =>
    rw [bitsFit_succ, ← ih, findClear]
    cases hdesc : readGroupDesc dev ctx group with
    | error failure =>
      have hfits : GroupFits dev ctx kind group := by
        unfold GroupFits
        grind
      have hnot : ¬GroupFull dev ctx kind group := by
        unfold GroupFull
        grind
      have hstatus : failure ≠ .outOfBounds := by
        rintro rfl
        exact readGroupDesc_inside _ hdesc
      simp [bind, Except.bind, hfits, hnot, hstatus]
    | ok desc =>
      simp only [bind, Except.bind]
      by_cases hfree : kind.free desc = 0
      · have hfits : GroupFits dev ctx kind group := by
          unfold GroupFits
          grind
        have hfull : GroupFull dev ctx kind group := ⟨desc, hdesc, .inl hfree⟩
        simp [hfree, hfits, hfull]
      · rw [if_neg hfree]
        cases hblock : readBlock dev ctx (kind.bitmap desc) with
        | error failure =>
          have hfits : GroupFits dev ctx kind group := by
            unfold GroupFits
            grind
          have hnot : ¬GroupFull dev ctx kind group := by
            unfold GroupFull
            grind
          have hstatus : failure ≠ .outOfBounds := by
            rintro rfl
            exact diskRead_inside _ _ hblock
          simp [hfits, hnot, hstatus]
        | ok bytes =>
          have hsearch := firstClear_all ⟨bytes, ctx.blockSize⟩ (kind.stop group)
            (kind.skip group) (kind.bits group)
          rw [groupFits_iff hdesc hfree hblock, groupFull_iff hdesc hfree hblock,
            ← hsearch.inside_iff]
          dsimp only
          cases hr : firstClear ⟨bytes, ctx.blockSize⟩ (kind.stop group) (kind.skip group)
            (kind.bits group) 0 with
          | error failure =>
            by_cases hout : failure = .outOfBounds
            · simp [hout]
            · have hiff := hsearch.full_iff (by simpa [hr] using hout)
              simp_all
          | ok found =>
            have hiff := hsearch.full_iff (by simp [hr])
            cases found with
            | none => simp_all
            | some i => simp_all [pure, Except.pure]

/-! ## Mounted images -/

/-- Looking up a block of an inode returns and reads records in their buffers only, and no search for
a clear bit leaves the block of its bitmap. -/
structure Harmless (dev : Device) (ctx : Context) (buffer : Nat → UInt8) : Prop where
  resolves : ∀ n < 2 ^ 32, ∀ inode, readInode dev ctx n = .ok inode → ∀ logical < 2 ^ 32,
    ∃ r, fileBlockNumber dev ctx buffer inode logical = some r ∧ r ≠ .error .outOfBounds
  blocks : allocateBlock dev ctx ≠ .error .outOfBounds
  inodes : allocateInode dev ctx ≠ .error .outOfBounds

/-- The pointers and counts of the image stay within what they are read into. -/
structure Bounded (dev : Device) (ctx : Context) (buffer : Nat → UInt8) : Prop where
  descents : ∀ n < 2 ^ 32, ∀ inode, readInode dev ctx n = .ok inode →
    inode.flags &&& ext4ExtentsFlag ≠ 0 →
    ∀ logical < 2 ^ 32, Descends dev ctx buffer logical inode.root
  blocks : BitsFit dev ctx (blockKind ctx) 0 ctx.groupsCount
  inodes : BitsFit dev ctx (inodeKind ctx) 0 ctx.groupsCount

theorem resolves_iff : (∃ r, fileBlockNumber dev ctx buffer inode logical = some r ∧
    r ≠ .error .outOfBounds) ↔
      (inode.flags &&& ext4ExtentsFlag ≠ 0 → Descends dev ctx buffer logical inode.root) := by
  unfold fileBlockNumber
  by_cases hflag : inode.flags &&& ext4ExtentsFlag = 0
  · simp [hflag]
  · rw [if_neg hflag, ← descends_iff]
    exact ⟨fun h _ => h, fun h => h hflag⟩

/-- A mounted image is harmless if and only if the pointers of its extent trees come to an end at
nodes that fit, and the searched groups have no more bits in use than a block of bits. -/
theorem harmless_iff (_hmount : mountRoot dev = .ok ctx) (buffer : Nat → UInt8) :
    Harmless dev ctx buffer ↔ Bounded dev ctx buffer := by
  have hsearch : ∀ kind, findClear dev ctx kind ctx.groupsCount 0 ≠ .error .outOfBounds ↔
      BitsFit dev ctx kind 0 ctx.groupsCount := by
    intro kind
    rw [findClear_inside, Nat.zero_add]
  have hblocks : allocateBlock dev ctx ≠ .error .outOfBounds ↔
      BitsFit dev ctx (blockKind ctx) 0 ctx.groupsCount := hsearch _
  have hinodes : allocateInode dev ctx ≠ .error .outOfBounds ↔
      BitsFit dev ctx (inodeKind ctx) 0 ctx.groupsCount := hsearch _
  constructor
  · rintro ⟨hresolves, hb, hi⟩
    exact ⟨fun n hn inode hread hflag logical hl =>
      resolves_iff.1 (hresolves n hn inode hread logical hl) hflag, hblocks.1 hb, hinodes.1 hi⟩
  · rintro ⟨hdescents, hb, hi⟩
    exact ⟨fun n hn inode hread logical hl =>
      resolves_iff.2 fun hflag => hdescents n hn inode hread hflag logical hl,
      hblocks.2 hb, hinodes.2 hi⟩

theorem bitsFit_of_le {count : Nat} (h : ∀ group < count, kind.bits group ≤ 8 * ctx.blockSize) :
    BitsFit dev ctx kind 0 count := by
  intro group _ hgroup _ desc bytes _ _ _ i htested _
  have hi := htested.1
  have hbits := h group hgroup
  change i / 8 < ctx.blockSize
  omega

/-- A device of `count` sectors with the given bytes, and zeros elsewhere. -/
def patched (count : Nat) (patches : List (Nat × List UInt8)) : Device := fun sector =>
  if sector < count then
    .ok fun i =>
      let off := 512 * sector + i
      match patches.find? fun p => p.1 ≤ off ∧ off < p.1 + p.2.length with
      | some p => p.2.getD (off - p.1) 0
      | none => 0
  else .error .invalidArgument

theorem diskRead_error {offset size : Nat} {status : Status} (hsize : 0 < size)
    (h : dev (offset / 512) = .error status) :
    diskRead dev offset size = .error (.status status) := by
  obtain ⟨k, hk⟩ : ∃ k, (offset % 512 + size + 511) / 512 = k + 1 :=
    ⟨(offset % 512 + size + 511) / 512 - 1, by omega⟩
  unfold diskRead
  simp only
  rw [hk, List.range'_succ]
  simp [List.mapM_cons, h, bind, Except.bind, Except.mapError]

/-- The superblock, the group descriptor and the flags of inode 1, of eight inodes in block 5. -/
def sampleMetadata : List (Nat × List UInt8) :=
  [(1024, [8, 0, 0, 0, 64]), (1044, [1]), (1056, [64]), (1064, [255, 255, 255, 255]),
    (1080, [0x53, 0xef]), (1108, [11, 0, 0, 0, 128]), (2056, [5]), (5154, [8])]

def sampleContext : Context where
  blockSize := 1024
  inodeSize := 128
  inodesPerGroup := 2 ^ 32 - 1
  blocksPerGroup := 64
  totalBlocks := 64
  totalInodes := 8
  groupsCount := 1
  groupDescSize := 32
  groupDescOffset := 2048
  firstDataBlock := 1
  firstIno := 11

/-- Inode 1 has a leaf with one extent. -/
def leafImage : Device := patched 12 (sampleMetadata ++
  [(5160, [0x0a, 0xf3, 1, 0, 4, 0, 0, 0, 0, 0, 0, 0, 0, 0, 0, 0, 1, 0, 0, 0, 40])])

theorem leafImage_mounted : mountRoot leafImage = .ok sampleContext := by decide +kernel

/-- Only eight inodes of the image can be read, and one of them has extents. -/
theorem leafImage_inode (hn : n < 2 ^ 32) (hread : readInode leafImage sampleContext n = .ok inode)
    (hflag : inode.flags &&& ext4ExtentsFlag ≠ 0) : n = 1 := by
  by_cases hsmall : n < 9
  · have hflags : ∀ k < 9, k ≠ 1 → ((readInode leafImage sampleContext k).toOption.map fun inode =>
        inode.flags &&& ext4ExtentsFlag).getD 0 = 0 := by decide +kernel
    by_contra hne
    have hzero := hflags n hsmall hne
    rw [hread] at hzero
    exact hflag hzero
  · have hgroup : (n - 1) / sampleContext.inodesPerGroup = 0 :=
      Nat.div_eq_of_lt (show n - 1 < 2 ^ 32 - 1 by omega)
    have hindex : (n - 1) % sampleContext.inodesPerGroup = n - 1 :=
      Nat.mod_eq_of_lt (show n - 1 < 2 ^ 32 - 1 by omega)
    have hdesc : readGroupDesc leafImage sampleContext 0 = .ok ⟨0, 0, 5, 0, 0⟩ := by decide +kernel
    have hsector : leafImage ((5 * 1024 + (n - 1) * 128) / 512) = .error .invalidArgument :=
      if_neg (by omega)
    unfold readInode at hread
    rw [if_neg (by omega), hgroup, hindex, hdesc] at hread
    simp only [bind, Except.bind] at hread
    rw [show (5 : Nat) * sampleContext.blockSize + (n - 1) * sampleContext.inodeSize =
      5 * 1024 + (n - 1) * 128 from rfl, diskRead_error (by decide) hsector] at hread
    cases hread

theorem leafImage_bounded : Bounded leafImage sampleContext fun _ => 0 where
  descents n hn inode hread hflag logical _ := by
    obtain rfl := leafImage_inode hn hread hflag
    have hview : (readInode leafImage sampleContext 1).toOption.map (fun inode =>
        (le16 inode.block 2, le16 inode.block 6)) = some (1, 0) := by decide +kernel
    rw [hread] at hview
    obtain ⟨hentries, hdepth⟩ := Prod.mk.inj (Option.some.inj hview)
    have hroot : inode.root.bytes = inode.block := rfl
    refine .last (fun _ => ?_) ?_
    · rw [hroot, hdepth, if_pos rfl, hentries]
      intro i _ hi _
      obtain rfl : i = 0 := by omega
      have hroom : recordOffset 0 + 12 ≤ 60 := by decide
      exact ⟨show recordOffset 0 + 6 ≤ 60 by omega, fun _ => hroom⟩
    · unfold nextNode
      rw [hroot, if_neg fun h => h.2 hdepth]
  blocks := bitsFit_of_le (by decide)
  inodes := bitsFit_of_le (by decide)

/-- An image with one small file is harmless. -/
theorem harmless_leafImage : Harmless leafImage sampleContext fun _ => 0 :=
  (harmless_iff leafImage_mounted _).2 leafImage_bounded

/-- Inode 1 has an index node whose record points to block 6, and so has block 6. -/
def cyclicImage : Device := patched 16 (sampleMetadata ++
  [(5160, [0x0a, 0xf3, 1, 0, 4, 0, 1, 0, 0, 0, 0, 0, 0, 0, 0, 0, 6]),
    (6144, [0x0a, 0xf3, 1, 0, 84, 0, 1, 0, 0, 0, 0, 0, 0, 0, 0, 0, 6])])

theorem cyclicImage_mounted : mountRoot cyclicImage = .ok sampleContext := by decide +kernel

theorem nextNode_of_view (hmagic : le16 node.bytes 0 = extentHeaderMagic)
    (hdepth : le16 node.bytes 6 ≠ 0) (hbest : bestRecord node logical = some i)
    {bytes : Nat → UInt8} (hread : readBlock dev ctx (leafOf node i) = .ok bytes) :
    nextNode dev ctx buffer logical node = some (extentBlock ctx buffer bytes) := by
  unfold nextNode
  rw [if_pos ⟨hmagic, hdepth⟩, hbest, Option.bind_some, hread]
  rfl

/-- A node that points to itself is never left. -/
theorem not_descends_of_loop (hloop : nextNode dev ctx buffer logical node = some node) :
    ¬Descends dev ctx buffer logical node := by
  intro h
  obtain ⟨n, hn⟩ := h.stops
  rw [Function.iterate_fixed (stepNode_of_next hloop), hloop] at hn
  cases hn

/-- Looking up block 0 of inode 1 never returns. -/
theorem not_harmless_cyclic : ¬∀ (dev : Device) (ctx : Context), mountRoot dev = .ok ctx →
    ∀ buffer, Harmless dev ctx buffer := by
  intro hall
  have hharmless := hall _ _ cyclicImage_mounted fun _ => 0
  have hroot : (readInode cyclicImage sampleContext 1).toOption.map (fun inode =>
      (inode.flags, le16 inode.block 0, le16 inode.block 6, bestRecord inode.root 0,
        leafOf inode.root 0)) = some (ext4ExtentsFlag, extentHeaderMagic, 1, some 0, 6) := by
    decide +kernel
  have hblock : (readBlock cyclicImage sampleContext 6).toOption.map (fun bytes =>
      let node := extentBlock sampleContext (fun _ => 0) bytes
      (le16 node.bytes 0, le16 node.bytes 6, bestRecord node 0, leafOf node 0)) =
      some (extentHeaderMagic, 1, some 0, 6) := by decide +kernel
  cases hread : readInode cyclicImage sampleContext 1 with
  | error failure =>
    rw [hread] at hroot
    cases hroot
  | ok inode =>
    cases hread' : readBlock cyclicImage sampleContext 6 with
    | error failure =>
      rw [hread'] at hblock
      cases hblock
    | ok bytes =>
      rw [hread] at hroot
      rw [hread'] at hblock
      simp only [Except.toOption, Option.map_some, Option.some.injEq, Prod.mk.injEq] at hroot hblock
      obtain ⟨hflags, hmagic, hdepth, hbest, hleaf⟩ := hroot
      obtain ⟨hmagic', hdepth', hbest', hleaf'⟩ := hblock
      have hresolves := resolves_iff.1 (hharmless.resolves 1 (by decide) inode hread 0 (by decide))
      have hdescends := hresolves (by rw [hflags]; decide)
      have hfirst : nextNode cyclicImage sampleContext (fun _ => 0) 0 inode.root =
          some (extentBlock sampleContext (fun _ => 0) bytes) :=
        nextNode_of_view hmagic (hdepth ▸ by decide) hbest (hleaf ▸ hread')
      have hloop := @nextNode_of_view cyclicImage sampleContext (fun _ => 0)
        (extentBlock sampleContext (fun _ => 0) bytes) 0 0 hmagic' (hdepth' ▸ by decide) hbest' bytes
        (hleaf' ▸ hread')
      cases hdescends with
      | last fits hnext =>
        rw [hfirst] at hnext
        cases hnext
      | next fits hnext rest =>
        rw [hfirst] at hnext
        cases hnext
        exact not_descends_of_loop hloop rest

end RadKernel.Ext4.Image
