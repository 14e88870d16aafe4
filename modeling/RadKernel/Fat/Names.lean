import Mathlib.Data.List.TakeWhile
import RadKernel.Fat.OneName

/-!
# Names and texts

`fat_stat`, `short_name_to_text` and `fat_list`. A name on the volume has eleven characters; the
text that `fat_list` reports leaves out the spaces and puts a dot before the extension.
-/

namespace RadKernel.Fat

open Kernel Prog Buffer List

variable {g : FatContext} {d : Disk} {name path : List UInt8} {entry : FatDirEntry} {j k n : Nat}

/-! ## The calls -/

/-- `rad_vfs_stat_t`. -/
structure FatStat where
  isDirectory : Bool
  mode : Nat
  size : Nat
  uid : Nat := 0
  gid : Nat := 0
  mtimeMillis : Nat := 0
  deriving DecidableEq, Repr

/-- What `fat_stat` and `fat_list` tell of an entry. -/
def entryStat (entry : FatDirEntry) : FatStat :=
  let isDirectory : Bool := entry.attr &&& attrDirectory ≠ 0
  { isDirectory, mode := if isDirectory then 0o40755 else 0o100644, size := entry.size }

def fatStat (g : FatContext) (path : List UInt8) : DiskQ FatStat :=
  if path = [] ∨ path = [47] then return { isDirectory := true, mode := 0o40755, size := 0 }
  else
    match makeShortName path with
    | none => Query.fail .notSupported
    | some name => do
      match ← findEntry g name with
      | .entry entry _ => return entryStat entry
      | .missing _ => Query.fail .notFound

/-- A character is put into a buffer of `outSize` bytes when there is room for a zero after it. -/
def putChar (outSize : Nat) (out : List UInt8) (ch : UInt8) : List UInt8 :=
  if out.length + 1 < outSize then out ++ [ch] else out

def shortNameToText (entry : FatDirEntry) (outSize : Nat) : List UInt8 :=
  let base := (List.range 8).map entry
  let ext := (List.range 3).map fun i => entry (8 + i)
  let out := (base.takeWhile (· ≠ 32)).foldl (putChar outSize) []
  let out := if ext.any (· ≠ 32) then putChar outSize out 46 else out
  (ext.takeWhile (· ≠ 32)).foldl (putChar outSize) out

/-- What the callback of `fat_list` gets. -/
structure Report where
  name : List UInt8
  stat : FatStat
  deriving DecidableEq, Repr

/-- A text ends at its first zero. -/
def reported (entry : FatDirEntry) : Report :=
  ⟨(shortNameToText entry 16).takeWhile (· ≠ 0), entryStat entry⟩

/-- The loop of `fat_list` over `n` entries from `offset` on; `goOn` is the answer of the callback
to the reports so far. -/
def listRounds (g : FatContext) (goOn : List Report → Bool) :
    Nat → Nat → List Report → DiskQ (List Report)
  | 0, _, reports => return reports
  | n + 1, offset, reports => do
    let entry ← readDirEntry g g.rootCluster offset
    if entry 0 = 0 then return reports
    else if entry 0 = 0xe5 ∨ entry.attr &&& attrLongName = attrLongName then
      listRounds g goOn n (offset + entrySize) reports
    else
      let reports := reports ++ [reported entry]
      if goOn reports then listRounds g goOn n (offset + entrySize) reports else return reports

/-- `fat_list`: the reports that the callback got. -/
def fatList (g : FatContext) (path : List UInt8) (goOn : List Report → Bool) :
    DiskQ (List Report) :=
  if path ≠ [] ∧ path ≠ [47] then Query.fail .notSupported
  else listRounds g goOn (g.clusterBytes / entrySize) 0 []

/-! ## Texts -/

/-- A character as `make_short_name` leaves it in a name. -/
structure Plain (ch : UInt8) : Prop where
  upper : toUpperAscii ch = ch
  notDot : ch ≠ 46
  notBad : ¬(ch ≤ 32 ∨ ch ∈ badCharacters)

variable {ch : UInt8}

theorem Plain.ne_space (h : Plain ch) : ch ≠ 32 := by
  rintro rfl
  exact h.notBad (.inl (by decide))

theorem Plain.ne_slash (h : Plain ch) : ch ≠ 47 := by
  rintro rfl
  exact h.notBad (.inr (by decide))

theorem Plain.ne_zero (h : Plain ch) : ch ≠ 0 := by
  rintro rfl
  exact h.notBad (.inl (by decide))

theorem toUpperAscii_toNat (p : UInt8) :
    (toUpperAscii p).toNat =
      if 97 ≤ p.toNat ∧ p.toNat ≤ 122 then p.toNat - 32 else p.toNat := by
  simp only [toUpperAscii, UInt8.le_iff_toNat_le]
  split_ifs with h
  · rw [UInt8.toNat_sub_of_le _ _ (by rw [UInt8.le_iff_toNat_le]; simp at h ⊢; omega)]
    rfl
  · simp_all
  · simp_all
  · rfl

theorem toUpperAscii_toUpperAscii (p : UInt8) : toUpperAscii (toUpperAscii p) = toUpperAscii p := by
  apply UInt8.toNat_inj.1
  have := toUpperAscii_toNat p
  have := toUpperAscii_toNat (toUpperAscii p)
  grind

theorem toUpperAscii_ne_dot {p : UInt8} (hp : p ≠ 46) : toUpperAscii p ≠ 46 := by
  intro h
  have hdot : p.toNat ≠ 46 := fun hnat => hp (UInt8.toNat_inj.1 hnat)
  have := toUpperAscii_toNat p
  rw [h] at this
  grind

theorem shortNameParts_plain {base ext base' ext' : List UInt8} {inExt : Bool}
    (h : shortNameParts base ext inExt path = some (base', ext')) (hbase : ∀ ch ∈ base, Plain ch)
    (hext : ∀ ch ∈ ext, Plain ch) : (∀ ch ∈ base', Plain ch) ∧ ∀ ch ∈ ext', Plain ch := by
  induction path generalizing base ext inExt with
  | nil =>
    obtain ⟨rfl, rfl⟩ := Prod.mk.inj (Option.some.inj h)
    exact ⟨hbase, hext⟩
  | cons p rest ih =>
    unfold shortNameParts at h
    dsimp only at h
    split_ifs at h with hdot _ hbad
    · exact ih h hbase hext
    all_goals have hplain : Plain (toUpperAscii p) :=
      ⟨toUpperAscii_toUpperAscii p, toUpperAscii_ne_dot hdot, hbad⟩
    · exact ih h (by grind) hext
    · exact ih h hbase (by grind)

theorem shortNameParts_append {base ext chars rest : List UInt8} {inExt : Bool}
    (hchars : ∀ ch ∈ chars, Plain ch)
    (hroom : if inExt then ext.length + chars.length ≤ 3 else base.length + chars.length ≤ 8) :
    shortNameParts base ext inExt (chars ++ rest) =
      if inExt then shortNameParts base (ext ++ chars) inExt rest
      else shortNameParts (base ++ chars) ext inExt rest := by
  induction chars generalizing base ext with
  | nil => simp
  | cons ch chars ih =>
    have hch := hchars ch (by simp)
    have hrest : ∀ ch ∈ chars, Plain ch := fun c hc => hchars c (by simp [hc])
    rw [cons_append, shortNameParts]
    rw [if_neg hch.notDot, hch.upper, if_neg hch.notBad]
    cases inExt with
    | false =>
      simp only [Bool.false_eq_true, if_false, length_cons] at hroom ih ⊢
      rw [if_pos (by rfl), if_neg (by omega), ih hrest (by simp; omega)]
      simp
    | true =>
      simp only [if_true, length_cons] at hroom ih ⊢
      rw [if_neg (by decide), if_neg (by omega), ih hrest (by simp; omega)]
      simp

/-- A name that `make_short_name` made, by its two parts. -/
structure NameParts (name base ext : List UInt8) : Prop where
  eq : name = padded 8 base ++ padded 3 ext
  baseLength : base.length ≤ 8
  extLength : ext.length ≤ 3
  nonempty : base ≠ []
  basePlain : ∀ ch ∈ base, Plain ch
  extPlain : ∀ ch ∈ ext, Plain ch

theorem makeShortName_parts (h : makeShortName path = some name) :
    ∃ base ext, NameParts name base ext := by
  unfold makeShortName at h
  dsimp only at h
  split_ifs at h
  split at h
  · cases h
  case h_2 base ext hparts =>
    split_ifs at h with hnil
    obtain ⟨-, hlength, hext⟩ := shortNameParts_some hparts (by simp) (by simp) (by simp)
    obtain ⟨hbase, hplain⟩ := shortNameParts_plain hparts (by simp) (by simp)
    exact ⟨base, ext, (Option.some.inj h).symm, hlength, hext, hnil, hbase, hplain⟩

def nameText (base ext : List UInt8) : List UInt8 := if ext = [] then base else base ++ 46 :: ext

theorem foldl_putChar {outSize : Nat} {out chars : List UInt8}
    (h : out.length + chars.length < outSize) :
    chars.foldl (putChar outSize) out = out ++ chars := by
  induction chars generalizing out with
  | nil => simp
  | cons ch chars ih =>
    rw [length_cons] at h
    rw [foldl_cons, putChar, if_pos (by omega), ih (by simp; omega)]
    simp

theorem takeWhile_padded {text : List UInt8} (htext : ∀ ch ∈ text, Plain ch) :
    (padded n text).takeWhile (· ≠ 32) = text := by
  have hall : text.takeWhile (· ≠ 32) = text :=
    List.takeWhile_eq_self_iff.2 fun ch hch => by simpa using (htext ch hch).ne_space
  rw [padded, takeWhile_append_of_pos fun ch hch => by simpa using (htext ch hch).ne_space]
  simp

namespace NameParts

variable {base ext : List UInt8} (h : NameParts name base ext)
include h

section
variable (hentry : entry.name = name)
include hentry

theorem entry_base : (List.range 8).map entry = padded 8 base := by
  have htake : entry.name.take 8 = (List.range 8).map entry := rfl
  have hlength : (padded 8 base).length = 8 := by
    have := h.baseLength
    simp [padded]
    omega
  rw [← htake, hentry, h.eq, take_left' hlength]

theorem entry_ext : (List.range 3).map (fun i => entry (8 + i)) = padded 3 ext := by
  have hdrop : entry.name.drop 8 = (List.range 3).map fun i => entry (8 + i) := rfl
  have hlength : (padded 8 base).length = 8 := by
    have := h.baseLength
    simp [padded]
    omega
  rw [← hdrop, hentry, h.eq, drop_left' hlength]

theorem text : shortNameToText entry 16 = nameText base ext := by
  have hbase := h.baseLength
  have hext := h.extLength
  rw [shortNameToText, h.entry_base hentry, h.entry_ext hentry]
  have hfold : base.foldl (putChar 16) [] = base := by
    rw [foldl_putChar (by simp; omega), nil_append]
  rw [takeWhile_padded h.basePlain, takeWhile_padded h.extPlain, hfold]
  cases ext with
  | nil => simp [nameText, padded]
  | cons ch rest =>
    have hne := (h.extPlain ch (by simp)).ne_space
    have hany : (padded 3 (ch :: rest)).any (· ≠ 32) = true := by simp [padded, hne]
    rw [if_pos hany, nameText, if_neg (by simp), putChar, if_pos (by omega),
      foldl_putChar (by simp at hext ⊢; omega)]
    simp

end

theorem text_chars : ∀ ch ∈ nameText base ext, ch ≠ 47 ∧ ch ≠ 0 := by
  intro ch hch
  have hplain : Plain ch ∨ ch = 46 := by
    unfold nameText at hch
    have := h.basePlain ch
    have := h.extPlain ch
    grind
  rcases hplain with hplain | rfl
  · exact ⟨hplain.ne_slash, hplain.ne_zero⟩
  · exact ⟨by decide, by decide⟩

theorem text_ne_nil : nameText base ext ≠ [] := by
  have := h.nonempty
  unfold nameText
  split_ifs <;> simp [this]

theorem makeShortName : makeShortName (nameText base ext) = some name := by
  have hslash : (47 : UInt8) ∉ nameText base ext := fun hmem => (h.text_chars 47 hmem).1 rfl
  have hdrop : (nameText base ext).dropWhile (fun ch => ch = 47) = nameText base ext := by
    obtain ⟨ch, rest, htext⟩ := exists_cons_of_ne_nil h.text_ne_nil
    have hch : ch ≠ 47 := (h.text_chars ch (by simp [htext])).1
    rw [htext, dropWhile_cons_of_neg (by simpa using hch)]
  have hparts : shortNameParts [] [] false (nameText base ext) = some (base, ext) := by
    unfold nameText
    split_ifs with hnil
    · have happend := @shortNameParts_append [] [] base [] false h.basePlain
        (by simpa using h.baseLength)
      rw [append_nil] at happend
      rw [happend, hnil]
      simp [shortNameParts]
    · rw [shortNameParts_append h.basePlain (by simpa using h.baseLength)]
      have happend := @shortNameParts_append base [] ext [] true h.extPlain
        (by simpa using h.extLength)
      rw [append_nil] at happend
      simp [happend, shortNameParts]
  rw [Fat.makeShortName, hdrop, if_neg (by simp [h.text_ne_nil, hslash])]
  simp only [hparts, if_neg h.nonempty, h.eq]

theorem reported_name (hentry : entry.name = name) : (reported entry).name = nameText base ext := by
  rw [reported, h.text hentry]
  exact List.takeWhile_eq_self_iff.2 fun ch hch => by simpa using (h.text_chars ch hch).2

end NameParts

/-- The text that is reported of a name that `make_short_name` made gives the name again. -/
theorem makeShortName_text (h : makeShortName path = some name) (hentry : entry.name = name) :
    makeShortName (reported entry).name = some name := by
  obtain ⟨base, ext, hparts⟩ := makeShortName_parts h
  rw [hparts.reported_name hentry]
  exact hparts.makeShortName

/-! ## Listing -/

/-- `fat_list` comes to the entry. -/
structure Lists (g : FatContext) (d : Disk) (j : Nat) : Prop where
  lt : j < slots g
  before : ∀ i < j, rootSlot g d i 0 ≠ 0
  live : Live (rootSlot g d j)

section
variable (hg : Layout g) (hroot : InRange g g.rootCluster) (goOn : List Report → Bool)
include hg hroot goOn

theorem listRounds_apply (hn : k + n = slots g) (hbefore : ∀ i < k, rootSlot g d i 0 ≠ 0)
    (reports : List Report) :
    ∃ reports', listRounds g goOn n (entrySize * k) reports d = some (.ok reports') ∧
      (∀ r ∈ reports', r ∈ reports ∨ ∃ j, Lists g d j ∧ r = reported (rootSlot g d j)) ∧
      ((∀ l, goOn l = true) → (∀ r ∈ reports, r ∈ reports') ∧
        ∀ j, k ≤ j → Lists g d j → reported (rootSlot g d j) ∈ reports') := by
  induction n generalizing k reports with
  | zero =>
    exact ⟨reports, rfl, fun r hr => .inl hr, fun _ => ⟨fun r hr => hr, fun j hj hlists => by
      have := hlists.lt
      omega⟩⟩
  | succ n ih =>
    have hread : readDirEntry g g.rootCluster (entrySize * k) d = some (.ok (rootSlot g d k)) :=
      readDirEntry_eq hg hroot (by omega)
    have hnext : entrySize * k + entrySize = entrySize * (k + 1) := by ring
    rw [listRounds, Query.bind_of_ok hread, hnext]
    by_cases hend : rootSlot g d k 0 = 0
    · rw [if_pos hend]
      refine ⟨reports, rfl, fun r hr => .inl hr, fun _ => ⟨fun r hr => hr, fun j hj hlists => ?_⟩⟩
      -- nothing is listed from the end on
      rcases Nat.eq_or_lt_of_le hj with rfl | hlt
      · exact absurd hend hlists.live.used
      · exact absurd hend (hlists.before k hlt)
    have hpast : ∀ i < k + 1, rootSlot g d i 0 ≠ 0 := by
      intro i hi
      rcases Nat.lt_succ_iff_lt_or_eq.1 hi with hlt | rfl
      · exact hbefore i hlt
      · exact hend
    rw [if_neg hend]
    by_cases hskip : rootSlot g d k 0 = 0xe5 ∨ (rootSlot g d k).attr &&& attrLongName = attrLongName
    · rw [if_pos hskip]
      obtain ⟨reports', hrun, honly, hall⟩ := ih (by omega) hpast reports
      refine ⟨reports', hrun, honly, fun hgo => ⟨(hall hgo).1, fun j hj hlists => ?_⟩⟩
      rcases Nat.eq_or_lt_of_le hj with rfl | hlt
      · rcases hskip with hdeleted | hlong
        · exact absurd hdeleted hlists.live.notDeleted
        · exact absurd hlong hlists.live.notLongName
      · exact (hall hgo).2 j hlt hlists
    · rw [if_neg hskip]
      rw [not_or] at hskip
      have hlists : Lists g d k := ⟨by omega, hbefore, ⟨hend, hskip.1, hskip.2⟩⟩
      have hnew : ∀ r ∈ reports ++ [reported (rootSlot g d k)],
          r ∈ reports ∨ ∃ j, Lists g d j ∧ r = reported (rootSlot g d j) := by
        intro r hr
        rcases List.mem_append.1 hr with hr | hr
        · exact .inl hr
        · exact .inr ⟨k, hlists, List.mem_singleton.1 hr⟩
      by_cases hgo : goOn (reports ++ [reported (rootSlot g d k)]) = true
      · rw [if_pos hgo]
        obtain ⟨reports', hrun, honly, hall⟩ :=
          ih (by omega) hpast (reports ++ [reported (rootSlot g d k)])
        refine ⟨reports', hrun, fun r hr => ?_, fun hgo => ⟨fun r hr => ?_, fun j hj hj' => ?_⟩⟩
        · rcases honly r hr with hr | hr
          · exact hnew r hr
          · exact .inr hr
        · exact (hall hgo).1 r (mem_append_left _ hr)
        · rcases Nat.eq_or_lt_of_le hj with rfl | hlt
          · exact (hall hgo).1 _ (by simp)
          · exact (hall hgo).2 j hlt hj'
      · rw [if_neg hgo]
        exact ⟨_, rfl, hnew, fun hall => absurd (hall _) hgo⟩

/-- `fat_list` reports entries that it comes to, and all of them to a callback that goes on. -/
theorem fatList_apply (hpath : path = [] ∨ path = [47]) :
    ∃ reports, fatList g path goOn d = some (.ok reports) ∧
      (∀ r ∈ reports, ∃ j, Lists g d j ∧ r = reported (rootSlot g d j)) ∧
      ((∀ l, goOn l = true) → ∀ j, Lists g d j → reported (rootSlot g d j) ∈ reports) := by
  obtain ⟨reports, hrun, honly, hall⟩ := listRounds_apply hg hroot goOn
    (Nat.zero_add _) (fun i hi => by omega) []
  refine ⟨reports, ?_, fun r hr => (honly r hr).resolve_left (by simp),
    fun hgo j hj => (hall hgo).2 j (Nat.zero_le j) hj⟩
  rw [fatList, if_neg (by tauto)]
  exact hrun

end

end RadKernel.Fat
