import RadKernel.Compositor.Picture

/-!
# Composition of a frame

`draw_surfaces_for_rect` looks for the lowest surface above the one drawn last. The search
stays with a higher surface when the wanted one is exactly at the height it starts from and
in a later slot, so that surface is never drawn. Where no search passes over a surface, every
composed rectangle shows the picture.
-/

namespace RadKernel.Compositor

open Layers List

variable {c : State} {rect clipped : Rect} {x y : Nat} {lastZ : Int}
  {i : Fin maxSurfaces}

/-! ## The next surface -/

/-- The surface in the slot is drawn for the rectangle. -/
def Meets (c : State) (rect : Rect) (i : Fin maxSurfaces) : Prop :=
  (c.surfaces i).id ≠ 0 ∧ (c.surfaces i).visible = true ∧
    rectIntersect (c.surfaces i).bounds rect ≠ none

instance (c : State) (rect : Rect) (i : Fin maxSurfaces) : Decidable (Meets c rect i) :=
  inferInstanceAs (Decidable (_ ∧ _))

/-- The search from `lastZ` on misses the surface in slot `i`: it is at that height, and a
slot before it has a higher surface. -/
def Misses (c : State) (rect : Rect) (lastZ : Int) (i : Fin maxSurfaces) : Prop :=
  Meets c rect i ∧ (c.surfaces i).z = lastZ ∧
    ∃ j < i, Meets c rect j ∧ lastZ < (c.surfaces j).z

instance (c : State) (rect : Rect) (lastZ : Int) (i : Fin maxSurfaces) :
    Decidable (Misses c rect lastZ i) :=
  inferInstanceAs (Decidable (_ ∧ _))

/-- Some search misses a surface: the first one, or the one after a surface was drawn. -/
def PassesOver (c : State) (rect : Rect) : Prop :=
  ∃ i, Misses c rect int32Min i ∨ ∃ k, Meets c rect k ∧ Misses c rect ((c.surfaces k).z + 1) i

instance (c : State) (rect : Rect) : Decidable (PassesOver c rect) :=
  inferInstanceAs (Decidable (∃ _, _))

def drawnOf (c : State) (rect : Rect) (l : List (Fin maxSurfaces)) : List (Fin maxSurfaces) :=
  l.filter fun i => Meets c rect i

def drawn (c : State) (rect : Rect) : List (Fin maxSurfaces) :=
  drawnOf c rect (List.finRange maxSurfaces)

def slotZ (c : State) (i : Fin maxSurfaces) : Int := (c.surfaces i).z

theorem lowerSurface_eq (c : State) (rect : Rect) (lastZ : Int) :
    lowerSurface c rect lastZ = lower (Meets c rect) (slotZ c) lastZ := by
  funext next i
  by_cases h : Meets c rect i ∧ lastZ ≤ slotZ c i
  · obtain ⟨⟨hid, hvisible, hrect⟩, hz⟩ := h
    have hcond : ¬ ((c.surfaces i).id = 0 ∨ (c.surfaces i).visible = false ∨
        (c.surfaces i).z < lastZ) := by
      simp only [hid, hvisible, slotZ] at hz ⊢
      simpa using hz
    simp only [lowerSurface]
    rw [if_neg hcond, if_neg hrect]
    cases next with
    | none => exact (lower_none ⟨hid, hvisible, hrect⟩ hz).symm
    | some j => exact (lower_some ⟨hid, hvisible, hrect⟩ hz).symm
  · rw [lower_skip h]
    simp only [lowerSurface]
    by_cases hcond : (c.surfaces i).id = 0 ∨ (c.surfaces i).visible = false ∨
        (c.surfaces i).z < lastZ
    · rw [if_pos hcond]
    · rw [if_neg hcond, if_pos]
      push Not at hcond
      by_contra hrect
      exact h ⟨⟨hcond.1, by simpa using hcond.2.1, hrect⟩, hcond.2.2⟩

theorem nextSurface_eq (c : State) (rect : Rect) (lastZ : Int) :
    nextSurface c rect lastZ =
      search (Meets c rect) (slotZ c) (List.finRange maxSurfaces) lastZ := by
  rw [nextSurface, lowerSurface_eq, search]

theorem missed_iff :
    Missed (Meets c rect) (slotZ c) (List.finRange maxSurfaces) lastZ i ↔ Misses c rect lastZ i := by
  simp [Missed, Misses, slotZ]

theorem nextSurface_least (hmiss : ∀ i, ¬ Misses c rect lastZ i) :
    Least (slotZ c) (drawn c rect) lastZ (nextSurface c rect lastZ) := by
  rw [nextSurface_eq]
  refine search_least (pairwise_lt_finRange _) fun i _ hmissed => ?_
  exact hmiss i (missed_iff.1 hmissed)

theorem nextSurface_meets (h : nextSurface c rect lastZ = some i) : Meets c rect i := by
  rw [nextSurface_eq] at h
  exact (search_some h).2.1

/-! ## Rectangles -/

theorem blitSurfaceRect_frame (c : State) (surface : Surface) (rect : Rect) :
    ∃ f, blitSurfaceRect c surface rect = { c with framebuffer := f } := by
  unfold blitSurfaceRect
  repeat' split
  all_goals exact ⟨_, rfl⟩

theorem pixel_drawSurfacesFrom (turns : Nat) :
    ∀ (lastZ : Int) (c : State), c.framebufferWidth ≤ c.framebufferStridePixels → InFrame c x y →
      pixel (drawSurfacesFrom rect turns lastZ c) x y =
        if rect.Has x y then
          ((drain (slotZ c) (nextSurface c rect) turns lastZ).map c.surfaces).foldl
            (drawSurface c.memory x y) (pixel c x y)
        else pixel c x y := by
  induction turns with
  | zero => intro lastZ c _ _; exact (ite_self _).symm
  | succ turns ih =>
    intro lastZ c hstride hin
    rw [drawSurfacesFrom, drain]
    cases hnext : nextSurface c rect lastZ with
    | none => exact (ite_self _).symm
    | some i =>
      have hblit := pixel_blitSurfaceRect rect (nextSurface_meets hnext).1 hstride hin
      obtain ⟨f, hf⟩ := blitSurfaceRect_frame c (c.surfaces i) rect
      rw [hf] at hblit
      simp only
      rw [hf, ih ((c.surfaces i).z + 1) { c with framebuffer := f } hstride hin, hblit]
      by_cases hhas : rect.Has x y
      · rw [if_pos hhas, if_pos hhas, if_pos hhas]
        rfl
      · rw [if_neg hhas, if_neg hhas, if_neg hhas]

theorem drawSurfacesFrom_frame (rect : Rect) (turns : Nat) :
    ∀ (lastZ : Int)
    (c : State), ∃ f, drawSurfacesFrom rect turns lastZ c = { c with framebuffer := f } := by
  induction turns with
  | zero => exact fun _ c => ⟨c.framebuffer, rfl⟩
  | succ turns ih =>
    intro lastZ c
    rw [drawSurfacesFrom]
    cases nextSurface c rect lastZ with
    | none => exact ⟨c.framebuffer, rfl⟩
    | some i =>
      obtain ⟨f, hf⟩ := blitSurfaceRect_frame c (c.surfaces i) rect
      obtain ⟨f', hf'⟩ := ih ((c.surfaces i).z + 1) { c with framebuffer := f }
      refine ⟨f', ?_⟩
      simp only
      rw [hf, hf']

theorem drawn_sublist (c : State) (rect : Rect) :
    ((drawn c rect).map c.surfaces).Sublist (visibleSurfaces c) := by
  have hfilter : (drawn c rect).map c.surfaces =
      ((drawn c rect).map c.surfaces).filter fun surface =>
        surface.id ≠ 0 ∧ surface.visible = true := by
    refine (List.filter_eq_self.2 fun surface hs => ?_).symm
    obtain ⟨i, hi, rfl⟩ := List.mem_map.1 hs
    have hmeets : Meets c rect i := of_decide_eq_true (List.mem_filter.1 hi).2
    exact decide_eq_true ⟨hmeets.1, hmeets.2.1⟩
  rw [hfilter]
  exact (List.filter_sublist.map _).filter _

theorem filterMap_drawn (hhas : rect.Has x y) :
    ((drawn c rect).map c.surfaces).filterMap (fun s => s.layerAt c.memory x y) = stack c x y := by
  rw [drawn, drawnOf, filterMap_map, filterMap_filter, stack]
  refine filterMap_congr fun i _ => ?_
  by_cases hmeets : Meets c rect i
  · rw [if_pos (decide_eq_true hmeets)]
    rfl
  · rw [if_neg (by simpa using hmeets), Surface.layerAt, if_neg]
    rintro ⟨hid, hvisible, hbounds⟩
    exact hmeets ⟨hid, hvisible, fun hnone => rectIntersect_none hnone x y ⟨hbounds, hhas⟩⟩

/-- What no call of a run without a front buffer changes. -/
structure Sound (c : State) : Prop where
  front : c.frontbuffer = none
  stride : c.framebufferWidth ≤ c.framebufferStridePixels
  z : ∀ i, int32Min ≤ (c.surfaces i).z
  nextId : c.nextSurfaceId ≠ 0

theorem pixel_drawSurfacesForRect (hsound : Sound c) (hin : InFrame c x y) (hdistinct : DistinctZ c)
    (hpass : ¬ PassesOver c rect) (hhas : rect.Has x y) (hclear : pixel c x y = c.clearColor) :
    pixel (drawSurfacesForRect c rect) x y = stackColor c x y := by
  have hslots : Distinct (slotZ c) (drawn c rect) := by
    have hsub := List.Pairwise.sublist (drawn_sublist c rect) hdistinct
    rwa [pairwise_map] at hsub
  have hfirst : Least (slotZ c) (drawn c rect) int32Min (nextSurface c rect int32Min) :=
    nextSurface_least fun i hmiss => hpass ⟨i, .inl hmiss⟩
  have hlater : ∀ i ∈ drawn c rect,
      Least (slotZ c) (drawn c rect) (slotZ c i + 1) (nextSurface c rect (slotZ c i + 1)) := by
    intro i hi
    have hmeets : Meets c rect i := of_decide_eq_true (List.mem_filter.1 hi).2
    exact nextSurface_least fun k hmiss => hpass ⟨k, .inr ⟨i, hmeets, hmiss⟩⟩
  have hlength : (drawn c rect).length ≤ maxSurfaces := by
    have := length_filter_le (fun i => decide (Meets c rect i)) (List.finRange maxSurfaces)
    rwa [length_finRange] at this
  rw [drawSurfacesForRect, pixel_drawSurfacesFrom _ _ _ hsound.stride hin, if_pos hhas, hclear,
    drain_eq hlater hfirst hslots (fun i _ => hsound.z i) hlength]
  have hrising : Rising Surface.z ((bottomUp (slotZ c) (drawn c rect)).map c.surfaces) := by
    rw [Rising, pairwise_map]
    exact hslots.bottomUp
  refine foldl_drawSurface_eq hrising ?_
  rw [← filterMap_drawn hhas]
  exact ((bottomUp_perm _ _).map _).filterMap _

/-- No search for a queued rectangle passes over a surface. -/
def FindsAll (c : State) (rect : Rect) : Prop :=
  match rectIntersect rect (framebufferRect c) with
  | none => True
  | some clipped => ¬ PassesOver c clipped

instance (c : State) (rect : Rect) : Decidable (FindsAll c rect) := by
  unfold FindsAll
  split <;> infer_instance

theorem composeRect_frame (c : State) (rect : Rect) :
    ∃ f, composeRect c rect = { c with framebuffer := f } := by
  rw [composeRect]
  cases rectIntersect rect (framebufferRect c) with
  | none => exact ⟨c.framebuffer, rfl⟩
  | some clipped =>
    obtain ⟨f, hf⟩ :=
      drawSurfacesFrom_frame clipped maxSurfaces int32Min (copyForwardRect c clipped)
    exact ⟨f, hf⟩

theorem pixel_composeRect (hsound : Sound c) (hin : InFrame c x y) (hdistinct : DistinctZ c)
    (hfinds : FindsAll c rect) :
    pixel (composeRect c rect) x y = if rect.Has x y then stackColor c x y else pixel c x y := by
  rw [composeRect]
  rw [FindsAll] at hfinds
  cases hclip : rectIntersect rect (framebufferRect c) with
  | none =>
    have hout := rectIntersect_none hclip x y
    rw [framebufferRect_has] at hout
    rw [if_neg fun hhas => hout ⟨hhas, hin⟩]
  | some clipped =>
    rw [hclip] at hfinds
    have hhas : clipped.Has x y ↔ rect.Has x y := by
      rw [rectIntersect_has hclip, framebufferRect_has]
      exact and_iff_left hin
    have hclear := pixel_copyForwardRect hsound.front (rectIntersect_inside hclip) hsound.stride hin
    simp only
    by_cases hrect : rect.Has x y
    · rw [if_pos (hhas.2 hrect)] at hclear
      rw [if_pos hrect]
      have hcleared : Sound (copyForwardRect c clipped) :=
        ⟨hsound.front, hsound.stride, hsound.z, hsound.nextId⟩
      exact pixel_drawSurfacesForRect hcleared hin hdistinct hfinds (hhas.2 hrect) hclear
    · rw [if_neg fun hat => hrect (hhas.1 hat)] at hclear
      rw [if_neg hrect, drawSurfacesForRect,
        pixel_drawSurfacesFrom (c := copyForwardRect c clipped) _ _ hsound.stride hin,
        if_neg fun hat => hrect (hhas.1 hat), hclear]

theorem composeRects_frame (rects : List Rect) :
    ∀ c : State, ∃ f, rects.foldl composeRect c = { c with framebuffer := f } := by
  induction rects with
  | nil => exact fun c => ⟨c.framebuffer, rfl⟩
  | cons r rects ih =>
    intro c
    obtain ⟨f, hf⟩ := composeRect_frame c r
    obtain ⟨f', hf'⟩ := ih { c with framebuffer := f }
    refine ⟨f', ?_⟩
    rw [foldl_cons, hf, hf']

theorem pixel_composeRects (rects : List Rect) :
    ∀ c : State, Sound c → InFrame c x y → DistinctZ c → (∀ r ∈ rects, FindsAll c r) →
      pixel (rects.foldl composeRect c) x y =
        if ∃ r ∈ rects, r.Has x y then stackColor c x y else pixel c x y := by
  induction rects with
  | nil =>
    intro c _ _ _ _
    exact (if_neg (by simp)).symm
  | cons r rects ih =>
    intro c hsound hin hdistinct hfinds
    have hfirst := pixel_composeRect hsound hin hdistinct (hfinds r mem_cons_self)
    obtain ⟨f, hf⟩ := composeRect_frame c r
    rw [hf] at hfirst
    have hrest := ih { c with framebuffer := f }
      ⟨hsound.front, hsound.stride, hsound.z, hsound.nextId⟩ hin hdistinct
      fun r' hr' => hfinds r' (mem_cons_of_mem _ hr')
    rw [foldl_cons, hf, hrest, hfirst]
    simp only [exists_mem_cons_iff]
    by_cases hlater : ∃ r' ∈ rects, r'.Has x y
    · rw [if_pos hlater, if_pos (.inr hlater)]
      rfl
    · rw [if_neg hlater]
      by_cases hhas : r.Has x y
      · rw [if_pos hhas, if_pos (.inl hhas)]
      · rw [if_neg hhas, if_neg (by simp [hhas, hlater])]

/-- A queued rectangle has the pixel. -/
def Damaged (c : State) (x y : Nat) : Prop := ∃ r ∈ queued c, r.Has x y

instance (c : State) (x y : Nat) : Decidable (Damaged c x y) :=
  inferInstanceAs (Decidable (∃ r ∈ queued c, r.Has x y))

/-- Every pixel is damaged or shows its stack. -/
def Fresh (c : State) : Prop :=
  ∀ x y, InFrame c x y → Damaged c x y ∨ pixel c x y = stackColor c x y

theorem composeFrame_frame (c : State) :
    ∃ f head, composeFrame c = { c with framebuffer := f, damageHead := head, damageCount := 0 } := by
  rw [composeFrame]
  split_ifs with hcount
  · exact ⟨c.framebuffer, c.damageHead, by rw [← hcount]⟩
  · obtain ⟨f, hf⟩ := composeRects_frame (queued c) c
    exact ⟨f, 0, by rw [hf]⟩

/-- The damaged pixels of a composed frame show their stacks, and the others stay. -/
theorem pixel_composeFrame (hsound : Sound c) (hdistinct : DistinctZ c)
    (hfinds : ∀ r ∈ queued c, FindsAll c r) (hin : InFrame c x y) :
    pixel (composeFrame c) x y = if Damaged c x y then stackColor c x y else pixel c x y := by
  rw [composeFrame]
  by_cases hcount : c.damageCount = 0
  · have hnone : ¬ Damaged c x y := by
      rintro ⟨r, hr, -⟩
      simp [queued, hcount] at hr
    rw [if_pos hcount, if_neg hnone]
  · rw [if_neg hcount]
    exact pixel_composeRects (queued c) c hsound hin hdistinct hfinds

/-- A composition that finds everything leaves a picture behind. -/
theorem composeFrame_shows (hsound : Sound c) (hfresh : Fresh c) (hdistinct : DistinctZ c)
    (hfinds : ∀ r ∈ queued c, FindsAll c r) (hin : InFrame c x y) :
    pixel (composeFrame c) x y = stackColor c x y := by
  rw [pixel_composeFrame hsound hdistinct hfinds hin]
  split_ifs with hdamaged
  · rfl
  · exact (hfresh x y hin).resolve_left hdamaged

end RadKernel.Compositor
