import RadKernel.Fat.Opening

/-!
# The entry of a name

Calls on one name change one entry of the first cluster of the root directory: the one with the
name, or a free one that gets the name.
-/

namespace RadKernel.Fat

open Kernel Prog Buffer

variable {g : FatContext} {d d' : Disk} {name path : List UInt8} {e e' : FatDirEntry}
  {i j c : Nat} {kept : Nat → Prop} {ι : Type} {first : ι → Nat}

/-! ## The entry of the name -/

theorem SameEntry.names (h : SameEntry e e') : Names e' name ↔ Names e name := by
  rw [Names, Names, h.live, h.name]

theorem Names.head (h : Names e name) : name.head? = some (e 0) := by
  rw [← h.2]
  rfl

theorem FirstNamed.unique (h : FirstNamed g d name c i) (h' : FirstNamed g d name c j) : i = j := by
  rcases Nat.lt_trichotomy i j with hlt | heq | hlt
  · exact absurd h.named (h'.before i hlt).2
  · exact heq
  · exact absurd h'.named (h.before j hlt).2

theorem FirstFree.unique (h : FirstFree g d name c i) (h' : FirstFree g d name c j) : i = j := by
  rcases Nat.lt_trichotomy i j with hlt | heq | hlt
  · exact absurd h.free (h'.before i hlt).1
  · exact heq
  · exact absurd h'.free (h.before j hlt).1

theorem FirstNamed.congr (h : FirstNamed g d name c j)
    (hsame : ∀ i < slots g, slot g d' c i = slot g d c i) : FirstNamed g d' name c j := by
  refine ⟨h.lt, ?_, fun i hi => ?_⟩
  · rw [hsame j h.lt]
    exact h.named
  · rw [hsame i (by have := h.lt; omega)]
    exact h.before i hi

theorem FirstFree.congr (h : FirstFree g d name c j)
    (hsame : ∀ i < slots g, slot g d' c i = slot g d c i) : FirstFree g d' name c j := by
  refine ⟨h.lt, ?_, fun i hi => ?_⟩
  · rw [hsame j h.lt]
    exact h.free
  · rw [hsame i (by have := h.lt; omega)]
    exact h.before i hi

section

variable (g : FatContext) (d : Disk) (name : List UInt8)

/-- The entry with the name in the first cluster, or the free entry that gets it. -/
def Target (j : Nat) : Prop :=
  FirstNamed g d name g.rootCluster j ∨
    FirstFree g d name g.rootCluster j ∧ ∀ i, ¬FirstNamed g d name g.rootCluster i

/-- The entry was found or made. An entry whose name begins with 0xe5 is made anew by every call,
as it counts as deleted. -/
def Present (j : Nat) : Prop :=
  FirstNamed g d name g.rootCluster j ∨
    FirstFree g d name g.rootCluster j ∧ name.head? = some 0xe5 ∧ rootSlot g d j 0 = 0xe5

end

/-- An entry that is written for the name. -/
def Fits (e : FatDirEntry) (name : List UInt8) : Prop :=
  Names e name ∨ name.head? = some 0xe5 ∧ e 0 = 0xe5

/-- There is at most one. -/
theorem Target.unique (h : Target g d name i) (h' : Target g d name j) : i = j := by
  rcases h with h | ⟨h, hnone⟩ <;> rcases h' with h' | ⟨h', hnone'⟩
  · exact h.unique h'
  · exact absurd h (hnone' i)
  · exact absurd h' (hnone j)
  · exact h.unique h'

section
variable (h : Target g d name j)
include h

theorem Target.lt : j < slots g := by
  rcases h with h | ⟨h, -⟩
  · exact h.lt
  · exact h.lt

theorem Target.before : ∀ i < j, rootSlot g d i 0 ≠ 0 ∧ ¬Names (rootSlot g d i) name := by
  rcases h with h | ⟨h, -⟩
  · exact h.before
  · exact fun i hi => ⟨fun hzero => (h.before i hi).1 (.inl hzero), (h.before i hi).2⟩

theorem Target.congr
    (hsame : ∀ i < slots g, rootSlot g d' i = rootSlot g d i) : Target g d' name j := by
  rcases h with h | ⟨h, hnone⟩
  · exact .inl (h.congr hsame)
  · exact .inr ⟨h.congr hsame, fun i hi => hnone i (hi.congr fun k hk => (hsame k hk).symm)⟩

end

theorem not_names_of_head (hhead : name.head? = some 0xe5) : ¬Names e name := by
  intro h
  exact h.1.notDeleted (Option.some.inj (h.head.symm.trans hhead))

section
variable (h : Present g d name j)
include h

theorem Present.target : Target g d name j := by
  rcases h with h | ⟨h, hhead, -⟩
  · exact .inl h
  · exact .inr ⟨h, fun i hi => not_names_of_head hhead hi.named⟩

theorem Present.fits : Fits (rootSlot g d j) name := by
  rcases h with h | ⟨-, h⟩
  · exact .inl h.named
  · exact .inr h

theorem Present.congr
    (hsame : ∀ i < slots g, rootSlot g d' i = rootSlot g d i) : Present g d' name j := by
  have hj := h.target.lt
  rcases h with h | ⟨h, hhead, hfirst⟩
  · exact .inl (h.congr hsame)
  · refine .inr ⟨h.congr hsame, hhead, ?_⟩
    rw [hsame j hj]
    exact hfirst

end

theorem Fits.setFields (h : Fits e name) (v w : Nat) :
    Fits ((e.setSize v).setFirstCluster w) name := by
  rcases h with ⟨hlive, hname⟩ | ⟨hhead, hfirst⟩
  · exact .inl ⟨(live_setFields e v w).2 hlive, (name_setFields e v w).trans hname⟩
  · refine .inr ⟨hhead, ?_⟩
    rwa [setFields_low (by decide)]

theorem SameEntry.fits (h : SameEntry e e') (hfits : Fits e name) : Fits e' name := by
  rcases hfits with hnames | ⟨hhead, hfirst⟩
  · exact .inl (h.names.2 hnames)
  · exact .inr ⟨hhead, (h 0 (by decide)).trans hfirst⟩

theorem newEntry_fits (hname : makeShortName path = some name) : Fits (newEntry name) name := by
  obtain ⟨hlength, ch, rest, rfl, hch⟩ := makeShortName_some hname
  have hbyte : ∀ i, i < 11 → newEntry (ch :: rest) i = (ch :: rest)[i]?.getD 0 := by
    intro i hi
    rw [newEntry, store_below (by omega)]
    simp [store]
  have hattr : (newEntry (ch :: rest)).attr = attrArchive := by
    simp [FatDirEntry.attr, newEntry, store]
  by_cases hdeleted : ch = 0xe5
  · exact .inr ⟨by rw [hdeleted]; rfl, by rw [hbyte 0 (by omega), hdeleted]; rfl⟩
  · refine .inl ⟨⟨?_, ?_, ?_⟩, ?_⟩
    · rw [hbyte 0 (by omega)]
      exact hch
    · rw [hbyte 0 (by omega)]
      exact hdeleted
    · rw [hattr]
      decide
    · refine List.ext_getElem (by simp [FatDirEntry.name, hlength]) fun i hi hi' => ?_
      have hlt : i < 11 := by omega
      simp only [FatDirEntry.name, List.getElem_map, List.getElem_range]
      rw [hbyte i hlt, List.getElem?_eq_getElem hi']
      rfl

/-! ## Writing it -/

/-- The clusters of the directory and of other files, and the other entries, are as they were. -/
structure OnlyTarget (g : FatContext) (name : List UInt8) (kept : Nat → Prop) (d d' : Disk) :
    Prop where
  link : ∀ c, kept c → links g d' c = links g d c
  data : ∀ c, kept c → c ≠ g.rootCluster → ∀ x, InCluster g c x → d' x = d x
  entry : ∀ j < slots g, ¬Target g d name j → SameEntry (rootSlot g d j) (rootSlot g d' j)
  target : ∀ j, Target g d' name j → Target g d name j

namespace OnlyTarget

theorem refl (d : Disk) : OnlyTarget g name kept d d :=
  ⟨fun _ _ => rfl, fun _ _ _ _ _ => rfl, fun _ _ _ => SameEntry.refl _, fun _ => id⟩

theorem trans {d'' : Disk} (h : OnlyTarget g name kept d d') (h' : OnlyTarget g name kept d' d'') :
    OnlyTarget g name kept d d'' :=
  ⟨fun c hc => (h'.link c hc).trans (h.link c hc),
    fun c hc hne x hx => (h'.data c hc hne x hx).trans (h.data c hc hne x hx),
    fun j hj hnot => (h.entry j hj hnot).trans (h'.entry j hj fun ht => hnot (h.target j ht)),
    fun j ht => h.target j (h'.target j ht)⟩

/-- Only chains that are not kept changed. -/
theorem of_volume (hroot : kept g.rootCluster) (hv : Volume g kept d first d') :
    OnlyTarget g name kept d d' := by
  have hsame : ∀ i < slots g, rootSlot g d' i = rootSlot g d i :=
    fun i hi => slot_eq_of_data (hv.data _ hroot) hi
  refine ⟨hv.link, fun c hc _ => hv.data c hc, fun j hj _ => ?_,
    fun j ht => ht.congr fun i hi => (hsame i hi).symm⟩
  rw [hsame j hj]
  exact SameEntry.refl _

end OnlyTarget

theorem Target.present_put (ht : Target g d name j) (hroot : InRange g g.rootCluster)
    (hfits : Fits e name) : Present g (putEntry g d g.rootCluster (entrySize * j) e) name j := by
  have hself : SameEntry e (rootSlot g (putEntry g d g.rootCluster (entrySize * j) e) j) :=
    entryAt_putEntry_self
  have hother : ∀ i < j, SameEntry (rootSlot g d i)
      (rootSlot g (putEntry g d g.rootCluster (entrySize * j) e) i) := by
    intro i hi
    have := ht.lt
    exact entryAt_putEntry_other hroot hroot ht.lt (by omega) (.inr (by omega))
  rcases hfits with hnames | ⟨hhead, hfirst⟩
  · refine .inl ⟨ht.lt, hself.names.2 hnames, fun i hi => ?_⟩
    have hbefore := ht.before i hi
    rw [(hother i hi).names]
    exact ⟨fun hzero => hbefore.1 ((hother i hi 0 (by decide)).symm.trans hzero), hbefore.2⟩
  · have hfirst' : rootSlot g (putEntry g d g.rootCluster (entrySize * j) e) j 0 = 0xe5 :=
      (hself 0 (by decide)).trans hfirst
    refine .inr ⟨⟨ht.lt, .inr hfirst', fun i hi => ?_⟩, hhead, hfirst'⟩
    rw [(hother i hi).names, (hother i hi).free]
    rcases ht with ht | ⟨ht, -⟩
    · exact absurd ht.named (not_names_of_head hhead)
    · exact ht.before i hi

/-- Writing the entry changes nothing else. -/
theorem OnlyTarget.put (hg : Layout g) (hkept : ∀ c, kept c → InRange g c)
    (hroot : kept g.rootCluster) (ht : Target g d name j) (hfits : Fits e name) :
    OnlyTarget g name kept d (putEntry g d g.rootCluster (entrySize * j) e) := by
  have hrange := hkept _ hroot
  refine ⟨fun c _ => ?_, fun c hc hne x hx => putEntry_data hrange (hkept c hc) hne ht.lt hx,
    fun i hi hnot => ?_, fun i hi => ?_⟩
  · rw [sameTable_putEntry.links hg]
  · refine entryAt_putEntry_other hrange hrange ht.lt hi (.inr ?_)
    rintro rfl
    exact hnot ht
  · rwa [hi.unique (ht.present_put hrange hfits).target]

end RadKernel.Fat
