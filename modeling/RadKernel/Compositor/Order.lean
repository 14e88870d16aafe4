import RadKernel.Compositor.Compose

/-!
# Draw order and hit test

The searches of `draw_surfaces_for_rect` and `rad_compositor_hit_test` on the numbers of the
machine: a sum of two `int32_t` wraps around. The blits change the framebuffer, which no search
reads, so the loop is followed by the slots it blits.

The loop never comes back to a height: it leaves out the second of two surfaces at one height,
and it starts over after a surface at `INT32_MAX`.
-/

namespace RadKernel.Compositor

open Layers

variable {c : State} {rect a b : Rect} {i : Fin maxSurfaces} {x y : Int}
  {blitted : List (Fin maxSurfaces)}

def int32Max : Int := 2 ^ 31 - 1

/-- The value of an `int32_t` expression. -/
def int32 (n : Int) : Int := n.bmod (2 ^ 32)

/-- `rect_intersect`, without the rectangle it stores. -/
def rectsIntersect (a b : Rect) : Bool :=
  let x0 := if b.x < a.x then a.x else b.x
  let y0 := if b.y < a.y then a.y else b.y
  let x1 := if int32 (a.x + a.width) < int32 (b.x + b.width)
    then int32 (a.x + a.width) else int32 (b.x + b.width)
  let y1 := if int32 (a.y + a.height) < int32 (b.y + b.height)
    then int32 (a.y + a.height) else int32 (b.y + b.height)
  !(x1 ≤ x0 || y1 ≤ y0)

/-- `contains_point`. -/
def containsPoint (surface : Surface) (x y : Int) : Bool :=
  surface.visible && surface.bounds.x ≤ x && surface.bounds.y ≤ y &&
    x < int32 (surface.bounds.x + surface.bounds.width) &&
    y < int32 (surface.bounds.y + surface.bounds.height)

/-- The body of the search of `draw_surfaces_for_rect`. -/
def searchSurface (c : State) (rect : Rect) (lastZ : Int) (next : Option (Fin maxSurfaces))
    (i : Fin maxSurfaces) : Option (Fin maxSurfaces) :=
  let surface := c.surfaces i
  if surface.id = 0 ∨ surface.visible = false ∨ surface.z < lastZ then next
  else if rectsIntersect surface.bounds rect = false then next
  else
    match next with
    | none => some i
    | some j =>
      if surface.z = lastZ then some j
      else if surface.z < (c.surfaces j).z then some i
      else some j

def nextBlit (c : State) (rect : Rect) (lastZ : Int) : Option (Fin maxSurfaces) :=
  (List.finRange maxSurfaces).foldl (searchSurface c rect lastZ) none

/-- The slots that the loop of `draw_surfaces_for_rect` blits, when it ends within the turns. -/
def blitsFrom (c : State) (rect : Rect) : Nat → Int → Option (List (Fin maxSurfaces))
  | 0, _ => none
  | turns + 1, lastZ =>
    match nextBlit c rect lastZ with
    | none => some []
    | some i => (blitsFrom c rect turns (int32 ((c.surfaces i).z + 1))).map (i :: ·)

/-- `draw_surfaces_for_rect` ends, and these are the slots it has blitted. -/
def Blits (c : State) (rect : Rect) (blitted : List (Fin maxSurfaces)) : Prop :=
  ∃ turns, blitsFrom c rect turns int32Min = some blitted

/-- The body of the search of `rad_compositor_hit_test`. -/
def bestSurface (c : State) (x y : Int) (best : Option (Fin maxSurfaces)) (i : Fin maxSurfaces) :
    Option (Fin maxSurfaces) :=
  let surface := c.surfaces i
  if surface.id = 0 ∨ containsPoint surface x y = false then best
  else
    match best with
    | none => some i
    | some j => if (c.surfaces j).z < surface.z then some i else some j

/-- `rad_compositor_input_result_t`. -/
structure InputResult where
  surfaceId : UInt32 := 0
  localX : Int := 0
  localY : Int := 0
  hit : Bool := false
  deriving DecidableEq, Repr

/-- What `rad_compositor_hit_test` returns for the surface it has found. -/
def hitResult (c : State) (x y : Int) : Option (Fin maxSurfaces) → Status × InputResult
  | none => (.notFound, {})
  | some i =>
    (.ok,
      { surfaceId := (c.surfaces i).id
        localX := int32 (x - (c.surfaces i).bounds.x)
        localY := int32 (y - (c.surfaces i).bounds.y)
        hit := true })

/-- `rad_compositor_hit_test`. -/
def hitTest (c : State) (x y : Int) : Status × InputResult :=
  hitResult c x y ((List.finRange maxSurfaces).foldl (bestSurface c x y) none)

/-! ## Machine numbers -/

def IsInt32 (n : Int) : Prop := int32Min ≤ n ∧ n ≤ int32Max

instance (n : Int) : Decidable (IsInt32 n) := inferInstanceAs (Decidable (_ ∧ _))

/-- A rectangle of machine numbers, as `rad_compositor_create_surface` and
`rad_compositor_set_surface_bounds` accept it. -/
structure Rect.Fits (rect : Rect) : Prop where
  x : IsInt32 rect.x
  y : IsInt32 rect.y
  width : 0 ≤ rect.width ∧ rect.width ≤ int32Max
  height : 0 ≤ rect.height ∧ rect.height ≤ int32Max

instance (rect : Rect) : Decidable rect.Fits :=
  decidable_of_iff ((IsInt32 rect.x ∧ IsInt32 rect.y) ∧
      (0 ≤ rect.width ∧ rect.width ≤ int32Max) ∧ 0 ≤ rect.height ∧ rect.height ≤ int32Max)
    ⟨fun ⟨⟨hx, hy⟩, hw, hh⟩ => ⟨hx, hy, hw, hh⟩, fun h => ⟨⟨h.x, h.y⟩, h.width, h.height⟩⟩

/-- The far edges of the rectangle are machine numbers. -/
def Rect.Ends (rect : Rect) : Prop :=
  rect.x + rect.width ≤ int32Max ∧ rect.y + rect.height ≤ int32Max

instance (rect : Rect) : Decidable rect.Ends := inferInstanceAs (Decidable (_ ∧ _))

/-- Every slot holds machine numbers; one that is not in use is zero. -/
def FitsTable (c : State) : Prop :=
  ∀ i, (c.surfaces i).bounds.Fits ∧ IsInt32 (c.surfaces i).z

instance (c : State) : Decidable (FitsTable c) :=
  inferInstanceAs (Decidable (∀ _, _))

/-- A sum that is too large wraps around to the left of its first term. -/
theorem int32_sum {m n : Int} (hm : IsInt32 m) (hn : 0 ≤ n ∧ n ≤ int32Max) :
    int32 (m + n) = if m + n ≤ int32Max then m + n else m + n - 2 ^ 32 := by
  simp only [IsInt32, int32Min, int32Max] at *
  rw [int32, Int.bmod_def]
  split_ifs <;> omega

theorem int32_succ {z : Int} (hz : IsInt32 z) :
    int32 (z + 1) = if z = int32Max then int32Min else z + 1 := by
  rw [int32_sum hz (by simp [int32Max])]
  simp only [IsInt32, int32Min, int32Max] at *
  split_ifs <;> omega

theorem rectIntersect_ne_none :
    rectIntersect a b ≠ none ↔
      (a.x < a.x + a.width ∧ a.x < b.x + b.width ∧ b.x < a.x + a.width ∧ b.x < b.x + b.width) ∧
        a.y < a.y + a.height ∧ a.y < b.y + b.height ∧ b.y < a.y + a.height ∧
          b.y < b.y + b.height := by
  rw [rectIntersect_eq]
  split_ifs with hempty
  · exact iff_of_false (fun h => h rfl) (by omega)
  · exact iff_of_true (by simp) (by omega)

theorem rectsIntersect_eq_true :
    rectsIntersect a b = true ↔
      (a.x < int32 (a.x + a.width) ∧ a.x < int32 (b.x + b.width) ∧
        b.x < int32 (a.x + a.width) ∧ b.x < int32 (b.x + b.width)) ∧
      a.y < int32 (a.y + a.height) ∧ a.y < int32 (b.y + b.height) ∧
        b.y < int32 (a.y + a.height) ∧ b.y < int32 (b.y + b.height) := by
  simp only [rectsIntersect, Bool.not_eq_true', Bool.or_eq_false_iff, decide_eq_false_iff_not]
  split_ifs <;> omega

/-- On the machine two rectangles meet when they do and have their far edges there. -/
theorem rectsIntersect_iff (ha : a.Fits) (hb : b.Fits) :
    rectsIntersect a b = true ↔ rectIntersect a b ≠ none ∧ a.Ends ∧ b.Ends := by
  have hax := int32_sum ha.x ha.width
  have hay := int32_sum ha.y ha.height
  have hbx := int32_sum hb.x hb.width
  have hby := int32_sum hb.y hb.height
  obtain ⟨hx, hy, hw, hh⟩ := ha
  obtain ⟨hx', hy', hw', hh'⟩ := hb
  rw [rectsIntersect_eq_true, rectIntersect_ne_none, hax, hay, hbx, hby]
  simp only [IsInt32, int32Min, int32Max, Rect.Ends] at *
  split_ifs <;> omega

variable {surface : Surface}

/-- On the machine a surface contains the points of its rectangle, unless the far edges wrap. -/
theorem containsPoint_iff (h : surface.bounds.Fits) (hends : surface.bounds.Ends) :
    containsPoint surface x y = true ↔ surface.visible = true ∧ surface.bounds.Has x y := by
  have hx := int32_sum h.x h.width
  have hy := int32_sum h.y h.height
  rw [if_pos hends.1] at hx
  rw [if_pos hends.2] at hy
  simp only [containsPoint, hx, hy, Rect.Has, Bool.and_eq_true, decide_eq_true_eq]
  tauto

theorem containsPoint_has (h : surface.bounds.Fits) (hpoint : containsPoint surface x y = true) :
    surface.visible = true ∧ surface.bounds.Has x y := by
  have hx := int32_sum h.x h.width
  have hy := int32_sum h.y h.height
  simp only [containsPoint, hx, hy, Bool.and_eq_true, decide_eq_true_eq] at hpoint
  refine ⟨hpoint.1.1.1.1, ?_⟩
  simp only [Rect.Has]
  split_ifs at hpoint <;> omega

/-! ## Searches -/

/-- The surface in the slot counts for the search, whose sums are those of the machine. -/
def Counts (c : State) (rect : Rect) (i : Fin maxSurfaces) : Prop :=
  (c.surfaces i).id ≠ 0 ∧ (c.surfaces i).visible = true ∧
    rectsIntersect (c.surfaces i).bounds rect = true

instance (c : State) (rect : Rect) (i : Fin maxSurfaces) : Decidable (Counts c rect i) :=
  inferInstanceAs (Decidable (_ ∧ _))

theorem counts_iff (hc : FitsTable c) (hrect : rect.Fits) :
    Counts c rect i ↔ Meets c rect i ∧ (c.surfaces i).bounds.Ends ∧ rect.Ends := by
  rw [Counts, Meets, rectsIntersect_iff (hc i).1 hrect]
  tauto

theorem searchSurface_eq (c : State) (rect : Rect) (lastZ : Int) :
    searchSurface c rect lastZ = lower (Counts c rect) (slotZ c) lastZ := by
  funext next i
  by_cases h : Counts c rect i ∧ lastZ ≤ slotZ c i
  · obtain ⟨⟨hid, hvisible, hrect⟩, hz⟩ := h
    have hcond : ¬ ((c.surfaces i).id = 0 ∨ (c.surfaces i).visible = false ∨
        (c.surfaces i).z < lastZ) := by
      simp only [hid, hvisible, slotZ] at hz ⊢
      simpa using hz
    simp only [searchSurface]
    rw [if_neg hcond, if_neg (by simp [hrect])]
    cases next with
    | none => exact (lower_none ⟨hid, hvisible, hrect⟩ hz).symm
    | some j => exact (lower_some ⟨hid, hvisible, hrect⟩ hz).symm
  · rw [lower_skip h]
    simp only [searchSurface]
    by_cases hcond : (c.surfaces i).id = 0 ∨ (c.surfaces i).visible = false ∨
        (c.surfaces i).z < lastZ
    · rw [if_pos hcond]
    · rw [if_neg hcond, if_pos]
      push Not at hcond
      by_contra hrect
      exact h ⟨⟨hcond.1, by simpa using hcond.2.1, by simpa using hrect⟩, hcond.2.2⟩

theorem nextBlit_eq (c : State) (rect : Rect) :
    nextBlit c rect = search (Counts c rect) (slotZ c) (List.finRange maxSurfaces) := by
  funext lastZ
  rw [nextBlit, searchSurface_eq, search]

/-- Where the search goes on after a surface. -/
def afterZ (c : State) (i : Fin maxSurfaces) : Int := int32 ((c.surfaces i).z + 1)

theorem blitsFrom_eq (c : State) (rect : Rect) (turns : Nat) (lastZ : Int) :
    blitsFrom c rect turns lastZ = rounds (nextBlit c rect) (afterZ c) turns lastZ := by
  induction turns generalizing lastZ with
  | zero => rfl
  | succ turns ih =>
    rw [blitsFrom, rounds]
    cases nextBlit c rect lastZ with
    | none => rfl
    | some i => exact congrArg (Option.map (i :: ·)) (ih _)

def Contains (c : State) (x y : Int) (i : Fin maxSurfaces) : Prop :=
  (c.surfaces i).id ≠ 0 ∧ containsPoint (c.surfaces i) x y = true

instance (c : State) (x y : Int) (i : Fin maxSurfaces) : Decidable (Contains c x y i) :=
  inferInstanceAs (Decidable (_ ∧ _))

theorem hitTest_eq (c : State) (x y : Int) :
    hitTest c x y =
      hitResult c x y (highest (Contains c x y) (slotZ c) (List.finRange maxSurfaces)) := by
  have hbody : bestSurface c x y = higher (Contains c x y) (slotZ c) := by
    funext best i
    by_cases h : Contains c x y i
    · simp only [bestSurface]
      rw [if_neg (by rintro (hid | hout); exacts [h.1 hid, by simp [h.2] at hout])]
      cases best with
      | none => rw [higher_none h]
      | some j =>
        rw [higher_some h]
        rfl
    · rw [higher_skip h]
      simp only [bestSurface]
      rw [if_pos]
      by_contra hnot
      push Not at hnot
      exact h ⟨hnot.1, by simpa using hnot.2⟩
  rw [hitTest, hbody, highest]

/-! ## Order -/

/-- Every visible surface that intersects the rectangle is blitted once, in the order of `z`. -/
structure InOrder (c : State) (rect : Rect) (blitted : List (Fin maxSurfaces)) : Prop where
  once : blitted.Nodup
  mem : ∀ i, i ∈ blitted ↔ Meets c rect i
  sorted : blitted.Pairwise fun i j => (c.surfaces i).z ≤ (c.surfaces j).z

/-- The surface drawn last of the visible ones that have the point. -/
def lastDrawn (c : State) (x y : Int) (blitted : List (Fin maxSurfaces)) :
    Option (Fin maxSurfaces) :=
  (blitted.filter fun i => (c.surfaces i).bounds.Has x y).getLast?

/-- The surfaces are drawn in order, and at every point of the rectangle the hit test returns the
one drawn last. -/
def Agrees (c : State) (rect : Rect) : Prop :=
  ∃ blitted, Blits c rect blitted ∧ InOrder c rect blitted ∧
    ∀ x y, IsInt32 x → IsInt32 y → rect.Has x y →
      hitTest c x y = hitResult c x y (lastDrawn c x y blitted)

/-- The surfaces that intersect the rectangle are at heights that the loop comes to. -/
structure Ordered (c : State) (rect : Rect) : Prop where
  inside : ∀ i, Meets c rect i → (c.surfaces i).bounds.Ends ∧ rect.Ends
  top : ∀ i, Meets c rect i → (c.surfaces i).z ≠ int32Max
  distinct : ∀ i j, Meets c rect i → Meets c rect j → i ≠ j →
    (c.surfaces i).z ≠ (c.surfaces j).z
  found : ¬ PassesOver c rect

theorem meets_of_has (hid : (c.surfaces i).id ≠ 0) (hvisible : (c.surfaces i).visible = true)
    (hi : (c.surfaces i).bounds.Has x y) (hrect : rect.Has x y) : Meets c rect i := by
  refine ⟨hid, hvisible, fun hnone => ?_⟩
  rw [rectIntersect_eq] at hnone
  simp only [Rect.Has] at hi hrect
  split_ifs at hnone
  omega

/-- On the machine the same surfaces count when their far edges are there. -/
theorem counts_eq (hc : FitsTable c) (hrect : rect.Fits)
    (hinside : ∀ i, Meets c rect i → (c.surfaces i).bounds.Ends ∧ rect.Ends) :
    ∀ i, Counts c rect i ↔ Meets c rect i := fun i => by
  rw [counts_iff hc hrect]
  exact ⟨And.left, fun h => ⟨h, hinside i h⟩⟩

theorem findable_iff :
    Findable (Meets c rect) (slotZ c) (List.finRange maxSurfaces) int32Min ↔
      (∀ i j, Meets c rect i → Meets c rect j → i ≠ j →
        (c.surfaces i).z ≠ (c.surfaces j).z) ∧ ¬ PassesOver c rect := by
  constructor
  · intro h
    refine ⟨fun i j => h.distinct i (List.mem_finRange i) j (List.mem_finRange j), ?_⟩
    rintro ⟨i, hfirst | ⟨k, hk, hlater⟩⟩
    · exact h.first i (List.mem_finRange i) (missed_iff.2 hfirst)
    · exact h.later k (List.mem_finRange k) hk i (List.mem_finRange i) (missed_iff.2 hlater)
  · rintro ⟨hdistinct, hpass⟩
    refine ⟨fun i _ j _ => hdistinct i j, fun i _ hmissed => ?_, fun k _ hk i _ hmissed => ?_⟩
    · exact hpass ⟨i, .inl (missed_iff.1 hmissed)⟩
    · exact hpass ⟨i, .inr ⟨k, hk, missed_iff.1 hmissed⟩⟩

theorem complete_inOrder :
    Complete (Meets c rect) (slotZ c) (List.finRange maxSurfaces) blitted ↔
      InOrder c rect blitted := by
  constructor
  · rintro ⟨honce, hmem, hsorted⟩
    exact ⟨honce, fun i => by simpa using hmem i, hsorted⟩
  · rintro ⟨honce, hmem, hsorted⟩
    exact ⟨honce, fun i => by simpa using hmem i, hsorted⟩

/-- The loop, when the surfaces that count on the machine are those that intersect. -/
theorem blits_iff (hcounts : ∀ i, Counts c rect i ↔ Meets c rect i) :
    Blits c rect blitted ↔
      ∃ turns, rounds (search (Meets c rect) (slotZ c) (List.finRange maxSurfaces)) (afterZ c)
        turns int32Min = some blitted := by
  simp only [Blits, blitsFrom_eq, nextBlit_eq, search_congr hcounts]

/-- The loop ends with every surface drawn in order exactly when it comes to all of them. -/
theorem inOrder_iff (hc : FitsTable c) (hrect : rect.Fits) :
    (∃ blitted, Blits c rect blitted ∧ InOrder c rect blitted) ↔ Ordered c rect := by
  have hloop : (∃ turns blitted, rounds (search (Meets c rect) (slotZ c)
      (List.finRange maxSurfaces)) (afterZ c) turns int32Min = some blitted ∧
        Complete (Meets c rect) (slotZ c) (List.finRange maxSurfaces) blitted) ↔ _ :=
    complete_iff (List.pairwise_lt_finRange maxSurfaces) (fun i _ => (hc i).2.1)
      fun i _ => int32_succ (hc i).2
  rw [findable_iff] at hloop
  constructor
  · rintro ⟨blitted, hblits, hinOrder⟩
    -- A loop that draws every surface has found each of them to count.
    have hinside : ∀ i, Meets c rect i → (c.surfaces i).bounds.Ends ∧ rect.Ends := by
      obtain ⟨turns, hrounds⟩ := hblits
      rw [blitsFrom_eq, nextBlit_eq] at hrounds
      intro i hi
      obtain ⟨lastZ, hfound⟩ := rounds_mem hrounds ((hinOrder.mem i).2 hi)
      exact ((counts_iff hc hrect).1 (search_some hfound).2.1).2
    obtain ⟨turns, hrounds⟩ := (blits_iff (counts_eq hc hrect hinside)).1 hblits
    obtain ⟨htop, hdistinct, hfound⟩ :=
      hloop.1 ⟨turns, blitted, hrounds, complete_inOrder.2 hinOrder⟩
    exact ⟨hinside, fun i => htop i (List.mem_finRange i), hdistinct, hfound⟩
  · intro h
    obtain ⟨turns, blitted, hrounds, hcomplete⟩ :=
      hloop.2 ⟨fun i _ => h.top i, h.distinct, h.found⟩
    exact ⟨blitted, (blits_iff (counts_eq hc hrect h.inside)).2 ⟨turns, hrounds⟩,
      complete_inOrder.1 hcomplete⟩

theorem drawSurfacesFrom_eq (turns : Nat) (lastZ : Int) (c : State) :
    drawSurfacesFrom rect turns lastZ c =
      (drain (slotZ c) (nextSurface c rect) turns lastZ).foldl
        (fun drawn i => blitSurfaceRect drawn (c.surfaces i) rect) c := by
  induction turns generalizing lastZ c with
  | zero => rfl
  | succ turns ih =>
    rw [drawSurfacesFrom, drain]
    cases nextSurface c rect lastZ with
    | none => rfl
    | some i =>
      obtain ⟨f, hf⟩ := blitSurfaceRect_frame c (c.surfaces i) rect
      simp only [List.foldl_cons]
      rw [hf, ih]
      rfl

/-- The rectangle is composed by the blits of the loop. -/
theorem drawSurfacesForRect_eq (hc : FitsTable c) (hrect : rect.Fits) (h : Ordered c rect)
    (hblits : Blits c rect blitted) :
    drawSurfacesForRect c rect =
      blitted.foldl (fun drawn i => blitSurfaceRect drawn (c.surfaces i) rect) c := by
  have hfindable : Findable (Meets c rect) (slotZ c) (List.finRange maxSurfaces) int32Min :=
    findable_iff.2 ⟨h.distinct, h.found⟩
  have hsorted := List.pairwise_lt_finRange maxSurfaces
  obtain ⟨turns, hrounds⟩ := (blits_iff (counts_eq hc hrect h.inside)).1 hblits
  have hafter : ∀ i ∈ List.finRange maxSurfaces, Meets c rect i → afterZ c i = slotZ c i + 1 := by
    intro i _ hi
    rw [afterZ, int32_succ (hc i).2, if_neg (h.top i hi), slotZ]
  have hloop := hfindable.rounds hsorted (fun i _ => (hc i).2.1) hafter
  have hmem : ∀ i ∈ drawn c rect, Meets c rect i := fun i hi =>
    of_decide_eq_true (List.mem_filter.1 hi).2
  have hdrain : drain (slotZ c) (nextSurface c rect) maxSurfaces int32Min =
      bottomUp (slotZ c) (drawn c rect) := by
    refine drain_eq (fun i hi => ?_) ?_ (hfindable.distinct_filter hsorted)
      (fun i _ => (hc i).2.1) (le_trans (List.length_filter_le _ _) (by simp))
    · exact nextSurface_least fun k hmiss => h.found ⟨k, .inr ⟨i, hmem i hi, hmiss⟩⟩
    · exact nextSurface_least fun k hmiss => h.found ⟨k, .inl hmiss⟩
  rw [drawSurfacesForRect, drawSurfacesFrom_eq, hdrain, rounds_unique hrounds hloop]
  rfl

/-- At a point of the rectangle the surfaces that contain it on the machine are those that
have it. -/
theorem contains_iff (hc : FitsTable c) (h : Ordered c rect) (hhas : rect.Has x y) :
    Contains c x y i ↔ Meets c rect i ∧ (c.surfaces i).bounds.Has x y := by
  constructor
  · rintro ⟨hid, hpoint⟩
    obtain ⟨hvisible, hi⟩ := containsPoint_has (hc i).1 hpoint
    exact ⟨meets_of_has hid hvisible hi hhas, hi⟩
  · rintro ⟨hmeets, hi⟩
    exact ⟨hmeets.1, (containsPoint_iff (hc i).1 (h.inside i hmeets).1).2 ⟨hmeets.2.1, hi⟩⟩

theorem hitTest_eq_last (hc : FitsTable c) (h : Ordered c rect) (hinOrder : InOrder c rect blitted)
    (hhas : rect.Has x y) : hitTest c x y = hitResult c x y (lastDrawn c x y blitted) := by
  have hrising : Rising (slotZ c) blitted := by
    refine (hinOrder.sorted.and hinOrder.once).imp_of_mem ?_
    rintro i j hi hj ⟨hle, hne⟩
    exact lt_of_le_of_ne hle (h.distinct i j ((hinOrder.mem i).1 hi) ((hinOrder.mem j).1 hj) hne)
  have hfilter : blitted.filter (fun i => Contains c x y i) =
      blitted.filter fun i => (c.surfaces i).bounds.Has x y := by
    refine List.filter_congr fun i hi => decide_eq_decide.2 ?_
    rw [contains_iff hc h hhas]
    exact and_iff_right ((hinOrder.mem i).1 hi)
  rw [hitTest_eq, lastDrawn, ← hfilter, highest_eq_last (complete_inOrder.2 hinOrder) hrising]
  exact fun i _ hcontains => ((contains_iff hc h hhas).1 hcontains).1

/-- The surfaces are drawn in order, the hit test agreeing with the drawing, exactly when no
far edge wraps, none of the surfaces is at `INT32_MAX`, no two are at one height, and no search
passes over one. -/
theorem agrees_iff (hc : FitsTable c) (hrect : rect.Fits) : Agrees c rect ↔ Ordered c rect := by
  constructor
  · rintro ⟨blitted, hblits, hinOrder, -⟩
    exact (inOrder_iff hc hrect).1 ⟨blitted, hblits, hinOrder⟩
  · intro h
    obtain ⟨blitted, hblits, hinOrder⟩ := (inOrder_iff hc hrect).2 h
    exact ⟨blitted, hblits, hinOrder, fun x y _ _ hhas => hitTest_eq_last hc h hinOrder hhas⟩

/-- A surface of one pixel at the origin. -/
def dot (id : UInt32) (z : Int) : Surface where
  id := id
  bounds := ⟨0, 0, 1, 1⟩
  z := z
  visible := true
  pixels := some 0
  stridePixels := 1

/-- A framebuffer of one pixel with two surfaces. -/
def twoDots (z z' : Int) : State where
  framebuffer := fun _ => 0
  frontbuffer := none
  framebufferWidth := 1
  framebufferHeight := 1
  framebufferStridePixels := 1
  frontbufferStridePixels := 1
  clearColor := 0
  nextSurfaceId := 3
  damageHead := 0
  damageCount := 0
  surfaces := fun i => if i.val = 0 then dot 1 z else if i.val = 1 then dot 2 z' else {}
  damage := fun _ => {}
  memory := fun _ => 0

theorem agrees_twoDots : Agrees (twoDots 0 1) (dot 1 0).bounds := by
  refine (agrees_iff (by decide) (by decide)).2 ⟨?_, ?_, ?_, ?_⟩ <;> decide +kernel

/-- Of two surfaces at one height the second one is not drawn. -/
theorem not_agrees_tie :
    ¬ ∀ (c : State) (rect : Rect), FitsTable c → rect.Fits → Agrees c rect := by
  intro hall
  obtain ⟨blitted, hblits, hinOrder, -⟩ :=
    hall (twoDots 0 0) (dot 1 0).bounds (by decide) (by decide)
  have h := (inOrder_iff (by decide) (by decide)).1 ⟨blitted, hblits, hinOrder⟩
  exact h.distinct ⟨0, by decide⟩ ⟨1, by decide⟩ (by decide) (by decide) (by decide) rfl

end RadKernel.Compositor
