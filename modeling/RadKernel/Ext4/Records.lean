import RadKernel.Ext4.Mapping
import Mathlib.Data.List.GetD
import Mathlib.Data.List.Sigma

/-!
# Directory blocks

A directory block is tiled by records: every record is long enough for what it holds, and
the last one ends with the block. On such a block the scan loops of `lookup_child`,
`add_dirent` and `remove_dirent` all visit the same records, and an insertion leaves it
tiled, with one entry more.
-/

namespace RadKernel.Ext4

open Kernel List

variable {f f' : Nat → UInt8} {limit pos q i a b child : Nat} {name : List UInt8}
  {ps : List Nat}

/-! ## Bytes of a record -/

variable {src : Nat → UInt8} {off len n v fileType minLen : Nat} {es : List Entry}

theorem overlay_of_lt (h : i < off) :
    overlay f off len src i = f i := if_neg (by omega)

theorem overlay_of_ge (h : off + len ≤ i) :
    overlay f off len src i = f i := if_neg (by omega)

theorem overlay_of_mem (h : off ≤ i) (h' : i < off + len) :
    overlay f off len src i = src (i - off) := if_pos ⟨h, h'⟩

/-- The bytes from `a` to `b` are the same. -/
def Agree (f f' : Nat → UInt8) (a b : Nat) : Prop := ∀ i, a ≤ i → i < b → f' i = f i

theorem Agree.mono {a' b' : Nat} (h : Agree f f' a b) (ha : a ≤ a') (hb : b' ≤ b) :
    Agree f f' a' b' := fun i hi hi' => h i (by omega) (by omega)

theorem le16_congr (h : Agree f f' i (i + 2)) : le16 f' i = le16 f i := by
  simp only [le16, h i (by omega) (by omega), h (i + 1) (by omega) (by omega)]

theorem le32_congr (h : Agree f f' i (i + 4)) : le32 f' i = le32 f i := by
  have hlow : Agree f f' i (i + 2) := h.mono (Nat.le_refl _) (by omega)
  have hhigh : Agree f f' (i + 2) (i + 2 + 2) := h.mono (by omega) (by omega)
  simp only [le32, le16_congr hlow, le16_congr hhigh]

section
variable (h : Agree f f' pos (pos + 8))
include h

theorem entryInode_congr : entryInode f' pos = entryInode f pos :=
  le32_congr (h.mono (by omega) (by omega))

theorem recLen_congr : recLen f' pos = recLen f pos :=
  le16_congr (h.mono (by omega) (by omega))

theorem nameLen_congr : nameLen f' pos = nameLen f pos := by
  rw [nameLen, nameLen, h (pos + 6) (by omega) (by omega)]

end

theorem entryName_congr (h : Agree f f' pos (pos + 8 + nameLen f pos)) :
    entryName f' pos = entryName f pos := by
  rw [entryName, entryName, nameLen_congr (h.mono (by omega) (by omega))]
  refine map_congr_left fun i hi => ?_
  have := List.mem_range.1 hi
  exact h _ (by omega) (by omega)

theorem byte_putLe {k : Nat} (hk : k < n) :
    (putLe n f i v (i + k)).toNat = v / 2 ^ (8 * k) % 2 ^ 8 := by
  rw [putLe, overlay_of_mem (by omega) (by omega), Nat.add_sub_cancel_left, UInt8.toNat_ofNat']

theorem le16_putLe (hv : v < 2 ^ 16) : le16 (putLe 2 f i v) i = v := by
  have h0 := byte_putLe (f := f) (i := i) (n := 2) (v := v) (k := 0) (by omega)
  have h1 := byte_putLe (f := f) (i := i) (n := 2) (v := v) (k := 1) (by omega)
  rw [Nat.add_zero] at h0
  rw [le16, h0, h1]
  omega

theorem le32_putLe (hv : v < 2 ^ 32) : le32 (putLe 4 f i v) i = v := by
  have h0 := byte_putLe (f := f) (i := i) (n := 4) (v := v) (k := 0) (by omega)
  have h1 := byte_putLe (f := f) (i := i) (n := 4) (v := v) (k := 1) (by omega)
  have h2 := byte_putLe (f := f) (i := i) (n := 4) (v := v) (k := 2) (by omega)
  have h3 := byte_putLe (f := f) (i := i) (n := 4) (v := v) (k := 3) (by omega)
  rw [Nat.add_zero] at h0
  rw [le32, le16, le16, h0, h1, h2, show i + 2 + 1 = i + 3 from rfl, h3]
  omega

theorem putLe_agree (h : b ≤ i ∨ i + n ≤ a) : Agree f (putLe n f i v) a b := by
  intro k hk hk'
  rcases h with h | h
  · exact overlay_of_lt (by omega)
  · exact overlay_of_ge (by omega)

theorem direntLen_bounds (n : Nat) : 8 + n ≤ direntLen n ∧ 8 ≤ direntLen n ∧ 4 ∣ direntLen n := by
  unfold direntLen
  omega

/-! ## Writing an entry -/

/-- The fields `putEntry` writes. -/
theorem putEntry_fields (f : Nat → UInt8) (pos fileType : Nat) (hchild : child < 2 ^ 32)
    (hname : name.length ≤ ext4NameMax) :
    entryInode (putEntry f pos child name fileType) pos = child ∧
    recLen (putEntry f pos child name fileType) pos = recLen f pos ∧
    nameLen (putEntry f pos child name fileType) pos = name.length ∧
    entryName (putEntry f pos child name fileType) pos = name := by
  have hmax : name.length < 2 ^ 8 := Nat.lt_of_le_of_lt hname (by decide)
  have hbelow : ∀ i, i < pos + 6 →
      putEntry f pos child name fileType i = putLe 4 f pos child i := by
    intro i hi
    unfold putEntry putLe
    rw [overlay_of_lt (by omega), overlay_of_lt (by omega), overlay_of_lt (by omega)]
  have hlen : nameLen (putEntry f pos child name fileType) pos = name.length := by
    unfold nameLen putEntry
    rw [overlay_of_lt (by omega), putLe, overlay_of_lt (by omega)]
    have := byte_putLe (f := putLe 4 f pos child) (i := pos + 6) (n := 1) (v := name.length)
      (k := 0) (by omega)
    rw [Nat.add_zero] at this
    omega
  refine ⟨?_, ?_, hlen, ?_⟩
  · rw [entryInode, le32_congr fun i _ hi => hbelow i (by omega)]
    exact le32_putLe hchild
  · rw [recLen, le16_congr fun i _ hi => hbelow i (by omega)]
    exact le16_congr (putLe_agree (.inr (by omega)))
  · refine ext_getElem (by simp [entryName, hlen]) fun i _ hi => ?_
    simp only [entryName, getElem_map, getElem_range, putEntry]
    rw [overlay_of_mem (by omega) (by omega), Nat.add_sub_cancel_left, getD_eq_getElem _ _ hi]

theorem putEntry_agree (h : b ≤ pos ∨ pos + 8 + name.length ≤ a) :
    Agree f (putEntry f pos child name fileType) a b := by
  intro i hi hi'
  unfold putEntry putLe
  rcases h with h | h
  · rw [overlay_of_lt (by omega), overlay_of_lt (by omega), overlay_of_lt (by omega),
      overlay_of_lt (by omega)]
  · rw [overlay_of_ge (by omega), overlay_of_ge (by omega), overlay_of_ge (by omega),
      overlay_of_ge (by omega)]

theorem insertEntry_agree (hroom : hasRoom (direntLen name.length) f q = true)
    (h : b ≤ q ∨ q + recLen f q ≤ a) : Agree f (insertEntry f q child name fileType) a b := by
  have hneed := direntLen_bounds name.length
  unfold hasRoom at hroom
  unfold insertEntry
  intro i hi hi'
  split at hroom
  case isTrue hdead =>
    have hfit : direntLen name.length ≤ recLen f q := by simpa using hroom
    rw [if_pos hdead]
    exact putEntry_agree (h.imp_right fun h => by omega) i hi hi'
  case isFalse hlive =>
    have hfit : direntLen (nameLen f q) + direntLen name.length ≤ recLen f q := by simpa using hroom
    rw [if_neg hlive, putEntry_agree (by omega) i hi hi']
    unfold putRecLen
    rw [putLe_agree (by omega) i hi hi']
    rcases h with h | h
    · rw [overlay_of_lt (by omega), putLe_agree (.inl (by omega)) i hi hi']
    · rw [overlay_of_ge (by omega), putLe_agree (.inr (by omega)) i hi hi']

/-! ## Blocks tiled by records -/

/-- The bytes a record needs: its header, and its name when it is in use. -/
def recNeed (f : Nat → UInt8) (pos : Nat) : Nat :=
  if entryInode f pos = 0 then 8 else direntLen (nameLen f pos)

theorem eight_le_recNeed (f : Nat → UInt8) (pos : Nat) : 8 ≤ recNeed f pos := by
  have := direntLen_bounds (nameLen f pos)
  unfold recNeed
  split <;> omega

/-- Records at the positions `ps` lie one behind the other from `pos` up to `limit`. -/
inductive Tiles (f : Nat → UInt8) (limit : Nat) : Nat → List Nat → Prop
  | done : Tiles f limit limit []
  | record {pos : Nat} {ps : List Nat} (need : recNeed f pos ≤ recLen f pos)
      (aligned : 4 ∣ recLen f pos) (rest : Tiles f limit (pos + recLen f pos) ps) :
      Tiles f limit pos (pos :: ps)

section
variable (h : Tiles f limit pos ps)
include h

theorem Tiles.le : pos ≤ limit := by
  induction h with
  | done => exact Nat.le_refl _
  | record _ _ _ ih => omega

/-- Where a record lies, and that it is long enough. -/
theorem Tiles.mem (hq : q ∈ ps) : pos ≤ q ∧ q + recLen f q ≤ limit ∧ recNeed f q ≤ recLen f q := by
  induction h with
  | done => cases hq
  | record need _ rest ih =>
    rcases List.mem_cons.1 hq with rfl | hq
    · exact ⟨Nat.le_refl _, rest.le, need⟩
    · obtain ⟨h1, h2⟩ := ih hq
      exact ⟨by omega, h2⟩

/-- The scan loops visit the records in order, whichever length they stop at. -/
theorem Tiles.findRecord_eq {fuel : Nat} {p : Nat → Bool}
    (hmin : minLen ≤ 8) (hfuel : limit ≤ pos + fuel) :
    findRecord limit minLen p f fuel pos = ps.find? p := by
  induction h generalizing fuel with
  | done =>
    cases fuel with
    | zero => rfl
    | succ fuel => exact if_pos (by omega)
  | @record pos ps need _ rest ih =>
    have hlong := eight_le_recNeed f pos
    have hend := rest.le
    cases fuel with
    | zero => omega
    | succ fuel =>
      unfold findRecord
      rw [if_neg (by omega), if_neg (by omega), List.find?_cons, ih (by omega)]
      cases p pos <;> rfl

end

theorem Tiles.findIn_eq {p : (Nat → UInt8) → Nat → Bool} (h : Tiles f limit 0 ps)
    (hmin : minLen ≤ 8) : findIn minLen p f limit = ps.find? (p f) :=
  h.findRecord_eq hmin (by omega)

/-- A name in use and its inode. -/
abbrev Entry := Sigma fun _ : List UInt8 => Nat

def entryAt (f : Nat → UInt8) (pos : Nat) : Option Entry :=
  if entryInode f pos = 0 then none else some ⟨entryName f pos, entryInode f pos⟩

/-- The entries of the records in use. -/
def entries (f : Nat → UInt8) (ps : List Nat) : List Entry := ps.filterMap (entryAt f)

theorem entryAt_dead (h : entryInode f pos = 0) : entryAt f pos = none := if_pos h

theorem entryAt_live (h : entryInode f pos ≠ 0) :
    entryAt f pos = some ⟨entryName f pos, entryInode f pos⟩ := if_neg h

@[simp] theorem entries_nil (f : Nat → UInt8) : entries f [] = [] := rfl

theorem entries_cons (f : Nat → UInt8) (pos : Nat) (ps : List Nat) :
    entries f (pos :: ps) = (entryAt f pos).toList ++ entries f ps := by
  unfold entries
  cases hat : entryAt f pos with
  | none => rw [filterMap_cons_none hat, Option.toList_none, nil_append]
  | some e => rw [filterMap_cons_some hat, Option.toList_some, singleton_append]

/-- A record depends on its own bytes. -/
theorem recNeed_congr (h : Agree f f' q (q + 8)) : recNeed f' q = recNeed f q := by
  rw [recNeed, recNeed, entryInode_congr h, nameLen_congr h]

theorem entryAt_congr (hneed : recNeed f q ≤ recLen f q) (h : Agree f f' q (q + recLen f q)) :
    entryAt f' q = entryAt f q := by
  have hlong := eight_le_recNeed f q
  unfold entryAt
  rw [entryInode_congr (h.mono (Nat.le_refl _) (by omega))]
  split
  · rfl
  case isFalse hlive =>
    have := direntLen_bounds (nameLen f q)
    unfold recNeed at hneed
    rw [if_neg hlive] at hneed
    rw [entryName_congr (h.mono (Nat.le_refl _) (by omega))]

/-- A record in front of a block that is tiled, its own bytes unchanged. -/
theorem Tiles.front (need : recNeed f pos ≤ recLen f pos) (aligned : 4 ∣ recLen f pos)
    (hagree : Agree f f' pos (pos + recLen f pos)) (rest : Tiles f' limit (pos + recLen f pos) ps) :
    Tiles f' limit pos (pos :: ps) ∧
      entries f' (pos :: ps) = (entryAt f pos).toList ++ entries f' ps := by
  have hlong := eight_le_recNeed f pos
  have hhead : Agree f f' pos (pos + 8) := hagree.mono (Nat.le_refl _) (by omega)
  have hlen := recLen_congr hhead
  refine ⟨.record ?_ ?_ ?_, ?_⟩
  · rw [recNeed_congr hhead, hlen]
    exact need
  · rw [hlen]
    exact aligned
  · rw [hlen]
    exact rest
  · rw [entries_cons, entryAt_congr need hagree]

theorem Tiles.congr (h : Tiles f limit pos ps) (hagree : Agree f f' pos limit) :
    Tiles f' limit pos ps ∧ entries f' ps = entries f ps := by
  induction h with
  | done => exact ⟨.done, by simp⟩
  | @record pos ps need aligned rest ih =>
    have hend := rest.le
    obtain ⟨htiles, hentries⟩ := ih (hagree.mono (by omega) (Nat.le_refl _))
    obtain ⟨hall, hfront⟩ := htiles.front need aligned (hagree.mono (Nat.le_refl _) hend)
    exact ⟨hall, by rw [hfront, hentries, entries_cons]⟩

/-- The block of `limit` bytes is tiled by records with the entries `es`. -/
def Holds (f : Nat → UInt8) (limit : Nat) (es : List Entry) : Prop :=
  ∃ ps, Tiles f limit 0 ps ∧ entries f ps = es

theorem Holds.congr (h : Holds f limit es) (hagree : Agree f f' 0 limit) : Holds f' limit es := by
  obtain ⟨ps, htiles, rfl⟩ := h
  exact ⟨ps, (htiles.congr hagree).1, (htiles.congr hagree).2⟩

theorem Tiles.unique {ps' : List Nat} (h : Tiles f limit pos ps)
    (h' : Tiles f limit pos ps') : ps = ps' := by
  induction h generalizing ps' with
  | done =>
    cases h' with
    | done => rfl
    | record need _ rest =>
      have hle := rest.le
      have hneed := eight_le_recNeed f limit
      omega
  | @record pos ps need _ rest ih =>
    cases h' with
    | done =>
      have hle := rest.le
      have hneed := eight_le_recNeed f limit
      omega
    | record _ _ rest' => rw [ih rest']

theorem Holds.unique {es' : List Entry} (h : Holds f limit es)
    (h' : Holds f limit es') : es = es' := by
  obtain ⟨ps, htiles, rfl⟩ := h
  obtain ⟨ps', htiles', rfl⟩ := h'
  rw [htiles.unique htiles']

/-! ## Insertion, removal, lookup -/

/-- An unused record taken over for a new entry. -/
theorem insertEntry_dead (fileType : Nat) (hdead : entryInode f q = 0)
    (hroom : hasRoom (direntLen name.length) f q = true) (hchild : 0 < child)
    (hchild32 : child < 2 ^ 32) (hname : name.length ≤ ext4NameMax) :
    recLen (insertEntry f q child name fileType) q = recLen f q ∧
    recNeed (insertEntry f q child name fileType) q ≤ recLen f q ∧
    entryAt (insertEntry f q child name fileType) q = some ⟨name, child⟩ := by
  obtain ⟨hinode, hlen, hnameLen, hentry⟩ :=
    putEntry_fields f q fileType hchild32 hname
  have hput : insertEntry f q child name fileType = putEntry f q child name fileType :=
    if_pos hdead
  have hne : child ≠ 0 := by omega
  have hfit : direntLen name.length ≤ recLen f q := by simpa [hasRoom, hdead] using hroom
  rw [hput]
  refine ⟨hlen, ?_, ?_⟩
  · rw [recNeed, hinode, if_neg hne, hnameLen]
    exact hfit
  · rw [entryAt, hinode, if_neg hne, hentry]

/-- A used record cut to what it needs, with a new record behind it. -/
theorem insertEntry_live (fileType : Nat) (hlive : entryInode f q ≠ 0)
    (hroom : hasRoom (direntLen name.length) f q = true) (hchild : 0 < child)
    (hchild32 : child < 2 ^ 32) (hname : name.length ≤ ext4NameMax) (hsmall : recLen f q < 2 ^ 16) :
    let f' := insertEntry f q child name fileType
    let actual := direntLen (nameLen f q)
    recLen f' q = actual ∧ recNeed f' q = actual ∧ entryAt f' q = entryAt f q ∧
    recLen f' (q + actual) = recLen f q - actual ∧
    recNeed f' (q + actual) ≤ recLen f q - actual ∧
    entryAt f' (q + actual) = some ⟨name, child⟩ := by
  have hfit : direntLen (nameLen f q) + direntLen name.length ≤ recLen f q := by
    simpa [hasRoom, hlive] using hroom
  have hactual := direntLen_bounds (nameLen f q)
  have hne : child ≠ 0 := by omega
  intro f' actual
  -- the block before the entry is written at the end of the cut record
  let f₁ := putRecLen f q actual
  let f₂ := overlay f₁ (q + actual) (recLen f q - actual) fun _ => 0
  let f₃ := putRecLen f₂ (q + actual) (recLen f q - actual)
  have hf' : f' = putEntry f₃ (q + actual) child name fileType := if_neg hlive
  have hcut : Agree f₁ f' 0 (q + actual) := by
    intro i hi hi'
    calc f' i = f₃ i := by
          rw [hf']
          exact putEntry_agree (.inl (Nat.le_refl _)) i hi hi'
      _ = f₂ i := putLe_agree (.inl (by omega)) i hi hi'
      _ = f₁ i := overlay_of_lt hi'
  have hkeep : ∀ {a b}, b ≤ q + 4 ∨ q + 4 + 2 ≤ a → b ≤ q + actual → Agree f f' a b :=
    fun hab hb i hi hi' => (hcut i (Nat.zero_le _) (by omega)).trans (putLe_agree hab i hi hi')
  have hinode : entryInode f' q = entryInode f q :=
    le32_congr (hkeep (.inl (Nat.le_refl _)) (by omega))
  have hnameLen : nameLen f' q = nameLen f q := by
    rw [nameLen, nameLen,
      hkeep (.inr (Nat.le_refl _)) (by omega) (q + 6) (Nat.le_refl _) (Nat.lt_succ_self _)]
  have hlen : recLen f' q = actual := by
    rw [recLen, le16_congr (hcut.mono (Nat.zero_le _) (by omega))]
    exact le16_putLe (by omega)
  have hentryName : entryName f' q = entryName f q := by
    rw [entryName, entryName, hnameLen]
    refine map_congr_left fun i hi => ?_
    have := List.mem_range.1 hi
    exact hkeep (.inr (by omega)) (by omega) _ (Nat.le_refl _) (Nat.lt_succ_self _)
  obtain ⟨hinode₂, hlen₂, hnameLen₂, hentry₂⟩ :=
    putEntry_fields f₃ (q + actual) fileType hchild32 hname
  rw [← hf'] at hinode₂ hlen₂ hnameLen₂ hentry₂
  have hrest : recLen f₃ (q + actual) = recLen f q - actual := le16_putLe (by omega)
  refine ⟨hlen, ?_, ?_, hlen₂.trans hrest, ?_, ?_⟩
  · rw [recNeed, hinode, if_neg hlive, hnameLen]
  · rw [entryAt, entryAt, hinode, hentryName]
  · rw [recNeed, hinode₂, if_neg hne, hnameLen₂]
    omega
  · rw [entryAt, hinode₂, if_neg hne, hentry₂]

/-- An entry placed at a record with room: the block stays tiled and has one entry more. -/
theorem Tiles.insert (fileType : Nat) (h : Tiles f limit pos ps) (hq : q ∈ ps)
    (hroom : hasRoom (direntLen name.length) f q = true) (hchild : 0 < child)
    (hchild32 : child < 2 ^ 32) (hname : name.length ≤ ext4NameMax) (hlimit : limit < 2 ^ 16) :
    ∃ ps', Tiles (insertEntry f q child name fileType) limit pos ps' ∧
      (entries (insertEntry f q child name fileType) ps').Perm (⟨name, child⟩ :: entries f ps) := by
  induction h with
  | done => cases hq
  | @record pos ps need aligned rest ih =>
    have hend := rest.le
    by_cases hhere : q = pos
    · subst hhere
      have hbehind : Agree f (insertEntry f q child name fileType) (q + recLen f q) limit :=
        insertEntry_agree hroom (.inr (Nat.le_refl _))
      obtain ⟨htiles, hentries⟩ := rest.congr hbehind
      by_cases hdead : entryInode f q = 0
      · obtain ⟨hlen, hneed, hat⟩ :=
          insertEntry_dead fileType hdead hroom hchild hchild32 hname
        refine ⟨q :: ps, .record (by omega) (hlen ▸ aligned) (hlen.symm ▸ htiles), ?_⟩
        rw [entries_cons, hat, hentries, entries_cons, entryAt_dead hdead]
        exact List.Perm.refl _
      · obtain ⟨hlen, hneed, hat, hlen₂, hneed₂, hat₂⟩ :=
          insertEntry_live fileType hdead hroom hchild hchild32 hname (by omega)
        have hactual := direntLen_bounds (nameLen f q)
        have hfit : direntLen (nameLen f q) + direntLen name.length ≤ recLen f q := by
          simpa [hasRoom, hdead] using hroom
        have hnext : q + direntLen (nameLen f q) + (recLen f q - direntLen (nameLen f q)) =
            q + recLen f q := by omega
        refine ⟨q :: (q + direntLen (nameLen f q)) :: ps, .record (by omega) (by omega) ?_, ?_⟩
        · rw [hlen]
          refine .record (by omega) (by omega) ?_
          rw [hlen₂, hnext]
          exact htiles
        · rw [entries_cons, entries_cons, hat, hat₂, hentries, entries_cons]
          exact perm_middle
    · have hin : q ∈ ps := (List.mem_cons.1 hq).resolve_left hhere
      have hbefore : Agree f (insertEntry f q child name fileType) pos (pos + recLen f pos) :=
        insertEntry_agree hroom (.inl (rest.mem hin).1)
      obtain ⟨ps', htiles, hperm⟩ := ih hin
      obtain ⟨hall, hfront⟩ := htiles.front need aligned hbefore
      refine ⟨pos :: ps', hall, ?_⟩
      rw [hfront, entries_cons]
      exact (hperm.append_left _).trans perm_middle

theorem Tiles.remove (h : Tiles f limit pos ps) (hq : q ∈ ps) (hlive : entryInode f q ≠ 0) :
    Tiles (putLe 4 f q 0) limit pos ps ∧
      (entries f ps).Perm (⟨entryName f q, entryInode f q⟩ :: entries (putLe 4 f q 0) ps) := by
  induction h with
  | done => cases hq
  | @record pos ps need aligned rest ih =>
    have hlong := eight_le_recNeed f pos
    by_cases hhere : q = pos
    · subst hhere
      have hbehind : Agree f (putLe 4 f q 0) (q + recLen f q) limit := putLe_agree (.inr (by omega))
      obtain ⟨htiles, hentries⟩ := rest.congr hbehind
      have hlen : recLen (putLe 4 f q 0) q = recLen f q :=
        le16_congr (putLe_agree (.inr (Nat.le_refl _)))
      have hdead : entryInode (putLe 4 f q 0) q = 0 := le32_putLe (by decide)
      refine ⟨.record ?_ (hlen.symm ▸ aligned) (hlen.symm ▸ htiles), ?_⟩
      · rw [recNeed, if_pos hdead, hlen]
        omega
      · rw [entries_cons, entryAt_live hlive, entries_cons, entryAt_dead hdead, hentries]
        exact List.Perm.refl _
    · have hin : q ∈ ps := (List.mem_cons.1 hq).resolve_left hhere
      have hbefore : Agree f (putLe 4 f q 0) pos (pos + recLen f pos) :=
        putLe_agree (.inl (rest.mem hin).1)
      obtain ⟨htiles, hperm⟩ := ih hin
      obtain ⟨hall, hfront⟩ := htiles.front need aligned hbefore
      refine ⟨hall, ?_⟩
      rw [hfront, entries_cons]
      exact (hperm.append_left _).trans perm_middle

theorem find_isNamed (f : Nat → UInt8) (name : List UInt8) (ps : List Nat) :
    (ps.find? (isNamed name f)).map (entryInode f) = (entries f ps).dlookup name := by
  induction ps with
  | nil => rfl
  | cons pos ps ih =>
    rw [List.find?_cons, entries_cons]
    by_cases hlive : entryInode f pos = 0
    · have hno : isNamed name f pos = false := by simp [isNamed, hlive]
      rw [hno, entryAt_dead hlive]
      exact ih
    · rw [entryAt_live hlive, Option.toList_some, singleton_append]
      by_cases hname : entryName f pos = name
      · have hyes : isNamed name f pos = true := by simp [isNamed, hlive, hname]
        rw [hyes]
        subst hname
        rw [dlookup_cons_eq]
        rfl
      · have hno : isNamed name f pos = false := by simp [isNamed, hname]
        rw [hno, dlookup_cons_ne _ _ fun h => hname h.symm]
        exact ih

theorem isNamed_iff : isNamed name f q = true ↔ entryInode f q ≠ 0 ∧ entryName f q = name := by
  simp [isNamed]

/-- A search by name in a block. -/
theorem Holds.find (h : Holds f limit es) (name : List UInt8) :
    (findIn 8 (isNamed name) f limit).map (entryInode f) = es.dlookup name := by
  obtain ⟨ps, htiles, rfl⟩ := h
  rw [htiles.findIn_eq (Nat.le_refl _), find_isNamed]

theorem Holds.insert (fileType : Nat) (h : Holds f limit es)
    (hfound : findIn 1 (hasRoom (direntLen name.length)) f limit = some q) (hchild : 0 < child)
    (hchild32 : child < 2 ^ 32) (hname : name.length ≤ ext4NameMax) (hlimit : limit < 2 ^ 16) :
    ∃ es', Holds (insertEntry f q child name fileType) limit es' ∧
      es'.Perm (⟨name, child⟩ :: es) := by
  obtain ⟨ps, htiles, rfl⟩ := h
  rw [htiles.findIn_eq (by decide)] at hfound
  obtain ⟨ps', htiles', hperm⟩ := htiles.insert fileType (mem_of_find?_eq_some hfound)
    (List.find?_some hfound) hchild hchild32 hname hlimit
  exact ⟨_, ⟨ps', htiles', rfl⟩, hperm⟩

theorem Holds.remove (h : Holds f limit es) (hfound : findIn 8 (isNamed name) f limit = some q) :
    ∃ es', Holds (putLe 4 f q 0) limit es' ∧ es.Perm (⟨name, entryInode f q⟩ :: es') := by
  obtain ⟨ps, htiles, rfl⟩ := h
  rw [htiles.findIn_eq (Nat.le_refl _)] at hfound
  obtain ⟨hlive, hname⟩ := isNamed_iff.1 (List.find?_some hfound)
  obtain ⟨htiles', hperm⟩ := htiles.remove (mem_of_find?_eq_some hfound) hlive
  rw [hname] at hperm
  exact ⟨_, ⟨ps, htiles', rfl⟩, hperm⟩

/-- The block `add_dirent` appends. -/
theorem freshBlock_holds (g : Geometry) (fileType : Nat) (hchild : 0 < child)
    (hchild32 : child < 2 ^ 32) (hname : name.length ≤ ext4NameMax) :
    Holds (freshBlock g child name fileType) g.blockSize [⟨name, child⟩] := by
  have hsize := g.blockSize_eq
  have hmax : name.length ≤ 255 := hname
  obtain ⟨hinode, hlen, hnameLen, hentry⟩ := putEntry_fields
    (putRecLen (fun _ => 0) 0 g.blockSize) 0 fileType hchild32 hname
  have hrec : recLen (freshBlock g child name fileType) 0 = g.blockSize :=
    hlen.trans (le16_putLe (by omega))
  have hne : entryInode (freshBlock g child name fileType) 0 ≠ 0 := by
    rw [freshBlock, hinode]
    omega
  refine ⟨[0], .record ?_ (by omega) ?_, ?_⟩
  · rw [recNeed, if_neg hne, hrec, freshBlock, hnameLen]
    unfold direntLen
    omega
  · rw [hrec, Nat.zero_add]
    exact .done
  · rw [entries_cons, entryAt_live hne, entries_nil, freshBlock, hinode, hentry]
    rfl

end RadKernel.Ext4
