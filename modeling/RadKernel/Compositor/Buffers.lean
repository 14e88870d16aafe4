import RadKernel.Compositor.Frames

/-!
# Buffers of surfaces

A client hands over a buffer of `stride_pixels` times the height of its surface. Which pixels of
the buffer a blit reads depends on the bounds, the stride and the buffer. Creating a surface and
submitting pixels check the width against the stride; `rad_compositor_set_surface_bounds` does not.
-/

namespace RadKernel.Compositor

variable {c : State} {surface : Surface} {rect : Rect} {i : Fin maxSurfaces}

/-- What a blit copies: an area of the framebuffer, from a pixel of the surface on. -/
structure Blit where
  area : Rect
  x : Nat
  y : Nat

def blitOf (c : State) (surface : Surface) (damage : Rect) : Option Blit :=
  if surface.visible = false ∨ surface.bounds.width ≤ 0 ∨ surface.bounds.height ≤ 0 then none
  else
    (rectIntersect surface.bounds damage).bind fun clipped =>
      (rectIntersect clipped (framebufferRect c)).map fun fb =>
        ⟨fb, (fb.x - surface.bounds.x).toNat, (fb.y - surface.bounds.y).toNat⟩

/-- A blit reads the pixels of `blitOf` and paints its area. -/
theorem blitSurfaceRect_eq (c : State) (surface : Surface) (damage : Rect) :
    blitSurfaceRect c surface damage =
      match surface.pixels, blitOf c surface damage with
      | some pixels, some blit =>
        { c with
          framebuffer :=
            Raster.paint (fun row col dst => drawPixel surface.isAlpha dst
                (c.memory (pixels + (blit.y + row) * surface.stridePixels + blit.x + col)))
              c.framebufferStridePixels blit.area.x.toNat blit.area.y.toNat
              blit.area.width.toNat blit.area.height.toNat c.framebuffer }
      | _, _ => c := by
  unfold blitSurfaceRect blitOf
  cases surface.pixels with
  | none => rfl
  | some pixels =>
    split_ifs
    · rfl
    cases rectIntersect surface.bounds damage with
    | none => rfl
    | some clipped =>
      dsimp only [Option.bind_some]
      cases rectIntersect clipped (framebufferRect c) <;> rfl

/-- The compositor, and the height of each surface when its buffer was handed over. -/
structure Buffered where
  compositor : State
  height : Fin maxSurfaces → Nat

namespace Buffered

def handed (w : Buffered) (call : Call) (i : Fin maxSurfaces) : Nat :=
  match call with
  | .createSurface config =>
    if ConfigValid config ∧ freeSlot w.compositor = some i then config.height.toNat else w.height i
  | .submitSurfacePixels id pixels stridePixels =>
    let bounds := (w.compositor.surfaces i).bounds
    if findSurface w.compositor id = some i ∧ pixels ≠ none ∧ bounds.width.toNat ≤ stridePixels
    then bounds.height.toNat
    else w.height i
  | _ => w.height i

def next (w : Buffered) (call : Call) : Buffered := ⟨call.perform w.compositor, w.handed call⟩

def Start (w : Buffered) : Prop :=
  ∃ framebuffer memory width height stridePixels,
    init framebuffer memory width height stridePixels = .ok w.compositor

end Buffered

/-- The pixels of the rectangle are pixels of the framebuffer. -/
def WritesInside (c : State) (rect : Rect) : Prop :=
  ∀ row col : Nat, row < rect.height → col < rect.width →
    (framebufferRect c).Has (rect.x + col) (rect.y + row)

/-- The pixels that a blit reads are pixels of the buffer, each in its row. -/
def Blit.ReadsInside (blit : Blit) (stridePixels height : Nat) : Prop :=
  ∀ row col : Nat, row < blit.area.height → col < blit.area.width →
    blit.x + col < stridePixels ∧
      (blit.y + row) * stridePixels + blit.x + col < stridePixels * height

/-- What the composition of a frame copies stays in the buffers. -/
def SafeFrame (w : Buffered) : Prop :=
  ∀ rect ∈ queued w.compositor, ∀ clipped,
    rectIntersect rect (framebufferRect w.compositor) = some clipped →
    WritesInside w.compositor clipped ∧
      ∀ lastZ i blit, nextSurface w.compositor clipped lastZ = some i →
        blitOf w.compositor (w.compositor.surfaces i) clipped = some blit →
        WritesInside w.compositor blit.area ∧
          blit.ReadsInside (w.compositor.surfaces i).stridePixels (w.height i)

/-- New bounds are not larger than the buffer of the surface. -/
def Covered (w : Buffered) : Call → Prop
  | .setSurfaceBounds id bounds => ∀ i, findSurface w.compositor id = some i →
      0 < bounds.width → 0 < bounds.height →
      bounds.width.toNat ≤ (w.compositor.surfaces i).stridePixels ∧
        bounds.height.toNat ≤ w.height i
  | _ => True

/-! ## Bounds fit the buffers -/

def Fits (surface : Surface) (height : Nat) : Prop :=
  surface.bounds.width.toNat ≤ surface.stridePixels ∧ surface.bounds.height.toNat ≤ height

theorem queueDamage_surfaces (c : State) (id : UInt32) (rect : Rect) (flags : UInt32) :
    (queueDamage c id rect flags).2.surfaces = c.surfaces := by
  unfold queueDamage
  grind

theorem queueSurfaceFullDamage_surfaces (c : State) (i : Fin maxSurfaces) (flags : UInt32) :
    (queueSurfaceFullDamage c i flags).surfaces = c.surfaces := by
  unfold queueSurfaceFullDamage
  dsimp only
  split
  · rfl
  · exact queueDamage_surfaces ..

theorem next_fits {w : Buffered} (h : ∀ i, Fits (w.compositor.surfaces i) (w.height i))
    {call : Call} (hcall : Covered w call) (i : Fin maxSurfaces) :
    Fits ((w.next call).compositor.surfaces i) ((w.next call).height i) := by
  have hi := h i
  cases call with
  | createSurface config =>
    simp only [Buffered.next, Call.perform, createSurface, Buffered.handed]
    by_cases hvalid : ConfigValid config
    · simp only [hvalid, not_true_eq_false, if_false, true_and]
      cases freeSlot w.compositor with
      | none => exact hi
      | some j =>
        simp only [queueSurfaceFullDamage_surfaces, setSurface_surfaces, Option.some.injEq, eq_comm]
        split_ifs
        · exact ⟨hvalid.2.2.2, le_rfl⟩
        · exact hi
    · simpa only [hvalid, not_false_eq_true, if_true, false_and, if_false] using hi
  | destroySurface id =>
    simp only [Buffered.next, Call.perform, destroySurface, Buffered.handed]
    split
    · exact hi
    · simp only [setSurface_surfaces]
      split_ifs
      · simp [Fits]
      · exact hi
  | setSurfaceBounds id bounds =>
    simp only [Buffered.next, Call.perform, setSurfaceBounds, Buffered.handed]
    split
    · exact hi
    · next j hj =>
      split_ifs with hempty
      · exact hi
      · simp only [queueSurfaceFullDamage_surfaces, setSurface_surfaces, queueDamage_surfaces]
        split_ifs with hij
        · subst hij
          exact hcall i hj (by omega) (by omega)
        · exact hi
  | focusSurface id =>
    simp only [Buffered.next, Call.perform, focusSurface, Buffered.handed]
    split
    · exact hi
    · simp only [queueSurfaceFullDamage_surfaces, setSurface_surfaces]
      split_ifs with hij
      · exact hij ▸ hi
      · exact hi
  | setSurfaceVisible id visible =>
    simp only [Buffered.next, Call.perform, setSurfaceVisible, Buffered.handed]
    split
    · exact hi
    · simp only [queueSurfaceFullDamage_surfaces, setSurface_surfaces]
      split_ifs with hij
      · exact hij ▸ hi
      · exact hi
  | submitSurfacePixels id pixels stridePixels =>
    simp only [Buffered.next, Call.perform, submitSurfacePixels, Buffered.handed]
    split
    · next hnone => simpa [hnone] using hi
    · next j hj =>
      simp only [hj, Option.some.injEq, eq_comm]
      by_cases hbad : pixels = none ∨ stridePixels < (w.compositor.surfaces j).bounds.width.toNat
      · rw [if_pos hbad, if_neg]
        · exact hi
        · rintro ⟨rfl, hpixels, hwidth⟩
          exact hbad.elim hpixels (by omega)
      · rw [if_neg hbad]
        simp only [queueSurfaceFullDamage_surfaces, setSurface_surfaces]
        rw [not_or, Nat.not_lt] at hbad
        by_cases hij : i = j
        · subst hij
          rw [if_pos rfl, if_pos ⟨rfl, hbad⟩]
          exact ⟨hbad.2, le_rfl⟩
        · rw [if_neg hij, if_neg fun hand => hij hand.1]
          exact hi
  | queueDamage id rect flags =>
    simpa only [Buffered.next, Call.perform, queueDamage_surfaces, Buffered.handed] using hi
  | markSurfaceDirty id =>
    simp only [Buffered.next, Call.perform, markSurfaceDirty, Buffered.handed]
    split
    · exact hi
    · simpa only [queueDamage_surfaces] using hi
  | composeFrame =>
    obtain ⟨f, head, hf⟩ := composeFrame_frame w.compositor
    simpa only [Buffered.next, Call.perform, hf, Buffered.handed] using hi

theorem rectIntersect_writes {a : Rect} (h : rectIntersect a (framebufferRect c) = some rect) :
    WritesInside c rect := by
  intro row col hrow hcol
  refine ((rectIntersect_has h _ _).1 ?_).2
  simp only [Rect.Has]
  omega

theorem blitOf_inside {height : Nat} {blit : Blit} (hfits : Fits surface height)
    (h : blitOf c surface rect = some blit) :
    WritesInside c blit.area ∧ blit.ReadsInside surface.stridePixels height := by
  unfold blitOf at h
  split_ifs at h with hshown
  obtain ⟨clipped, hclipped, h⟩ := Option.bind_eq_some_iff.1 h
  obtain ⟨fb, hfb, rfl⟩ := Option.map_eq_some_iff.1 h
  refine ⟨rectIntersect_writes hfb, fun row col hrow hcol => ?_⟩
  dsimp only at hrow hcol ⊢
  -- the pixel that is read lies within the bounds of the surface
  have hhas : surface.bounds.Has (fb.x + col) (fb.y + row) := by
    refine ((rectIntersect_has hclipped _ _).1 ((rectIntersect_has hfb _ _).1 ?_).1).1
    simp only [Rect.Has]
    omega
  have horigin := rectIntersect_origin hfb
  have horigin' := rectIntersect_origin hclipped
  obtain ⟨hwidth, hheight⟩ := hfits
  simp only [Rect.Has] at hhas
  have hcolumn : (fb.x - surface.bounds.x).toNat + col < surface.stridePixels := by omega
  have hline : (fb.y - surface.bounds.y).toNat + row + 1 ≤ height := by omega
  refine ⟨hcolumn, ?_⟩
  have hle := Nat.mul_le_mul_right surface.stridePixels hline
  rw [Nat.add_mul, Nat.one_mul, Nat.mul_comm height] at hle
  omega

theorem safeFrame_of_run {w : Buffered}
    (h : Run (Obeys Buffered.next Covered) Buffered.Start w) : SafeFrame w := by
  have hfits : ∀ i, Fits (w.compositor.surfaces i) (w.height i) := by
    refine h.invariant (J := fun w => ∀ i, Fits (w.compositor.surfaces i) (w.height i)) ?_ ?_
    · rintro w ⟨framebuffer, memory, width, height, stridePixels, hinit⟩ i
      unfold init at hinit
      split_ifs at hinit
      rw [← Except.ok.inj hinit]
      simp [Fits]
    · rintro w call _ hw ⟨hcall, rfl⟩ i
      exact next_fits hw hcall i
  exact fun rect _ clipped hclipped => ⟨rectIntersect_writes hclipped,
    fun lastZ i blit _ hblit => blitOf_inside (hfits i) hblit⟩

/-! ## A surface that outgrows its buffer -/

def bufferedOnePixel : Buffered := ⟨onePixel, fun _ => 0⟩

theorem bufferedOnePixel_start : bufferedOnePixel.Start :=
  let ⟨framebuffer, memory, width, height, stridePixels, hinit, _⟩ := onePixel_start
  ⟨framebuffer, memory, width, height, stridePixels, hinit⟩

/-- The second pixel of a buffer of one pixel is read. -/
theorem not_safeFrame_grown : ¬ ∀ w : Buffered,
    Run (Obeys Buffered.next fun _ _ => True) Buffered.Start w → SafeFrame w := by
  intro h
  have hsafe := h _ ((Run.start bufferedOnePixel_start).along
    [.createSurface redSurface, .setSurfaceBounds 1 ⟨-1, 0, 2, 1⟩] ⟨trivial, trivial, trivial⟩)
  obtain ⟨-, hread⟩ := hsafe ⟨-1, 0, 2, 1⟩ (by decide +kernel) ⟨0, 0, 1, 1⟩ (by decide +kernel)
  have hcolumn := (hread int32Min ⟨0, by decide⟩ ⟨⟨0, 0, 1, 1⟩, 1, 0⟩ (by decide +kernel) rfl).2 0 0 (by decide)
    (by decide)
  exact absurd hcolumn.1 (by decide +kernel)

theorem safeFrame_created :
    SafeFrame ([Call.createSurface redSurface].foldl Buffered.next bufferedOnePixel) :=
  safeFrame_of_run ((Run.start bufferedOnePixel_start).along _ ⟨trivial, trivial⟩)

end RadKernel.Compositor
