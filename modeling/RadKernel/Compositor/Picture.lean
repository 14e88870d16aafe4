import RadKernel.Compositor.Model
import RadKernel.Lib.Layers

/-!
# Composition of a rectangle

The picture of a compositor is the clear color with all visible surfaces drawn over it in the
order of their heights. At a pixel it is a stack of layers, one for each surface that shows
there. A blit puts a layer on the pixels of a rectangle.
-/

namespace RadKernel.Compositor

open Layers

variable {c : State} {rect a b : Rect} {x y : Nat} {surface : Surface} {memory : Nat → UInt32}

/-- The point lies in the rectangle. -/
def Rect.Has (rect : Rect) (x y : Int) : Prop :=
  rect.x ≤ x ∧ x < rect.x + rect.width ∧ rect.y ≤ y ∧ y < rect.y + rect.height

instance (rect : Rect) (x y : Int) : Decidable (rect.Has x y) :=
  inferInstanceAs (Decidable (_ ∧ _))

/-- The part of a surface at one pixel. -/
structure Layer where
  z : Int
  alpha : Bool
  color : UInt32
  deriving DecidableEq

def Surface.layerAt (surface : Surface) (memory : Nat → UInt32) (x y : Nat) : Option Layer :=
  if surface.id ≠ 0 ∧ surface.visible = true ∧ surface.bounds.Has x y then
    surface.pixels.map fun pixels =>
      { z := surface.z
        alpha := surface.isAlpha
        color := memory (pixels + (y - surface.bounds.y).toNat * surface.stridePixels +
          (x - surface.bounds.x).toNat) }
  else none

def Layer.over (color : UInt32) (layer : Layer) : UInt32 := drawPixel layer.alpha color layer.color

def drawSurface (memory : Nat → UInt32) (x y : Nat) (color : UInt32) (surface : Surface) : UInt32 :=
  match surface.layerAt memory x y with
  | none => color
  | some layer => layer.over color

def visibleSurfaces (c : State) : List Surface :=
  ((List.finRange maxSurfaces).map c.surfaces).filter fun surface =>
    surface.id ≠ 0 ∧ surface.visible = true

/-- The clear color with all visible surfaces drawn over it in increasing `z`. -/
def picture (c : State) (x y : Nat) : UInt32 :=
  (bottomUp Surface.z (visibleSurfaces c)).foldl (drawSurface c.memory x y) c.clearColor

def DistinctZ (c : State) : Prop := Distinct Surface.z (visibleSurfaces c)

instance (c : State) : Decidable (DistinctZ c) :=
  inferInstanceAs (Decidable (Distinct Surface.z (visibleSurfaces c)))

/-- The layers at a pixel, in the order of the slots. -/
def stack (c : State) (x y : Nat) : List Layer :=
  (List.finRange maxSurfaces).filterMap fun i => (c.surfaces i).layerAt c.memory x y

/-- The color of the layers at a pixel. -/
def stackColor (c : State) (x y : Nat) : UInt32 :=
  (bottomUp Layer.z (stack c x y)).foldl Layer.over c.clearColor

def pixel (c : State) (x y : Nat) : UInt32 := c.framebuffer (y * c.framebufferStridePixels + x)

def InFrame (c : State) (x y : Nat) : Prop := x < c.framebufferWidth ∧ y < c.framebufferHeight

theorem layerAt_z {layer : Layer} (h : surface.layerAt memory x y = some layer) :
    layer.z = surface.z := by
  unfold Surface.layerAt at h
  split at h
  · cases hp : surface.pixels with
    | none => simp [hp] at h
    | some p =>
      rw [hp, Option.map_some, Option.some.injEq] at h
      rw [← h]
  · cases h

/-! ## Drawing in order -/

theorem foldl_drawSurface (surfaces : List Surface) (color : UInt32) :
    surfaces.foldl (drawSurface memory x y) color =
      (surfaces.filterMap fun s => s.layerAt memory x y).foldl Layer.over color := by
  rw [List.foldl_filterMap]
  congr 1
  funext color surface
  rw [drawSurface]
  cases surface.layerAt memory x y <;> rfl

theorem stack_eq (c : State) (x y : Nat) :
    stack c x y = (visibleSurfaces c).filterMap fun s => s.layerAt c.memory x y := by
  rw [visibleSurfaces, List.filterMap_filter, List.filterMap_map]
  refine List.filterMap_congr fun i _ => ?_
  by_cases h : (c.surfaces i).id ≠ 0 ∧ (c.surfaces i).visible = true
  · rw [Function.comp, if_pos (decide_eq_true h)]
  · have hnone : (c.surfaces i).layerAt c.memory x y = none := by
      rw [Surface.layerAt, if_neg fun hall => h ⟨hall.1, hall.2.1⟩]
    rw [Function.comp, hnone, ite_self]

/-- Surfaces drawn in the order of their heights give the color of the stack when they are
the ones that show at the pixel. -/
theorem foldl_drawSurface_eq {surfaces : List Surface} (hrising : Rising Surface.z surfaces)
    (hperm : (surfaces.filterMap fun s => s.layerAt c.memory x y).Perm (stack c x y)) :
    surfaces.foldl (drawSurface c.memory x y) c.clearColor = stackColor c x y := by
  have hlayers : Rising Layer.z (surfaces.filterMap fun s => s.layerAt c.memory x y) :=
    hrising.filterMap fun s _ layer hlayer => layerAt_z hlayer
  rw [foldl_drawSurface, stackColor, hlayers.eq_bottomUp hperm]

theorem picture_eq (h : DistinctZ c) : picture c x y = stackColor c x y := by
  refine foldl_drawSurface_eq h.bottomUp ?_
  rw [stack_eq]
  exact (bottomUp_perm _ _).filterMap _

/-! ## Rectangles -/

theorem rectIntersect_eq (a b : Rect) :
    rectIntersect a b =
      if min (a.x + a.width) (b.x + b.width) ≤ max a.x b.x ∨
        min (a.y + a.height) (b.y + b.height) ≤ max a.y b.y
      then none
      else some
        { x := max a.x b.x
          y := max a.y b.y
          width := min (a.x + a.width) (b.x + b.width) - max a.x b.x
          height := min (a.y + a.height) (b.y + b.height) - max a.y b.y } := by
  have hmax : ∀ m n : Int, (if n < m then m else n) = max m n := by
    intro m n
    split_ifs <;> omega
  have hmin : ∀ m n : Int, (if m < n then m else n) = min m n := by
    intro m n
    split_ifs <;> omega
  simp only [rectIntersect, hmax, hmin]

theorem rectIntersect_has (h : rectIntersect a b = some rect) (x y : Int) :
    rect.Has x y ↔ a.Has x y ∧ b.Has x y := by
  rw [rectIntersect_eq] at h
  split at h
  · cases h
  · rw [Option.some.injEq] at h
    subst h
    simp only [Rect.Has]
    omega

theorem rectIntersect_none (h : rectIntersect a b = none) (x y : Int) :
    ¬ (a.Has x y ∧ b.Has x y) := by
  rw [rectIntersect_eq] at h
  split at h
  · rename_i hempty
    simp only [Rect.Has]
    omega
  · cases h

/-- The rectangle lies in the framebuffer. -/
structure Inside (c : State) (rect : Rect) : Prop where
  left : 0 ≤ rect.x
  top : 0 ≤ rect.y
  right : rect.x + rect.width ≤ c.framebufferWidth
  bottom : rect.y + rect.height ≤ c.framebufferHeight
  width : 0 < rect.width
  height : 0 < rect.height

theorem rectIntersect_inside (h : rectIntersect a (framebufferRect c) = some rect) :
    Inside c rect := by
  rw [rectIntersect_eq] at h
  split at h
  · cases h
  · rename_i hempty
    rw [Option.some.injEq] at h
    subst h
    simp only [framebufferRect] at hempty
    constructor <;> simp only [framebufferRect] <;> omega

theorem framebufferRect_has : (framebufferRect c).Has x y ↔ InFrame c x y := by
  simp only [Rect.Has, framebufferRect, InFrame]
  omega

theorem pixel_paint (hrect : Inside c rect)
    (hstride : c.framebufferWidth ≤ c.framebufferStridePixels)
    (hin : InFrame c x y) (f : Nat → Nat → UInt32 → UInt32) :
    pixel { c with
      framebuffer :=
        Raster.paint f c.framebufferStridePixels rect.x.toNat rect.y.toNat rect.width.toNat
          rect.height.toNat c.framebuffer } x y =
      if rect.Has x y then f (y - rect.y.toNat) (x - rect.x.toNat) (pixel c x y)
      else pixel c x y := by
  obtain ⟨hleft, htop, hright, hbottom, hwidth, hheight⟩ := hrect
  obtain ⟨hx, hy⟩ := hin
  simp only [pixel]
  rw [Raster.paint_apply f c.framebuffer (by omega) (by omega)]
  refine if_congr ?_ rfl rfl
  simp only [Rect.Has]
  omega

theorem pixel_copyForwardRect (hfront : c.frontbuffer = none) (hrect : Inside c rect)
    (hstride : c.framebufferWidth ≤ c.framebufferStridePixels) (hin : InFrame c x y) :
    pixel (copyForwardRect c rect) x y = if rect.Has x y then c.clearColor else pixel c x y := by
  simp only [copyForwardRect, hfront]
  exact pixel_paint hrect hstride hin _

theorem layerAt_hidden (h : surface.visible = false) : surface.layerAt memory x y = none := by
  rw [Surface.layerAt, if_neg]
  rintro ⟨-, hvisible, -⟩
  rw [h] at hvisible
  cases hvisible

theorem layerAt_outside (h : ¬ surface.bounds.Has x y) : surface.layerAt memory x y = none := by
  rw [Surface.layerAt, if_neg]
  exact fun hall => h hall.2.2

theorem rectIntersect_origin (h : rectIntersect a b = some rect) : a.x ≤ rect.x ∧ a.y ≤ rect.y := by
  rw [rectIntersect_eq] at h
  split at h
  · cases h
  · rw [Option.some.injEq] at h
    subst h
    exact ⟨le_max_left _ _, le_max_left _ _⟩

theorem pixel_blitSurfaceRect (rect : Rect) (hid : surface.id ≠ 0)
    (hstride : c.framebufferWidth ≤ c.framebufferStridePixels) (hin : InFrame c x y) :
    pixel (blitSurfaceRect c surface rect) x y =
      if rect.Has x y then drawSurface c.memory x y (pixel c x y) surface else pixel c x y := by
  have hnone : surface.layerAt c.memory x y = none →
      pixel c x y = if rect.Has x y then drawSurface c.memory x y (pixel c x y) surface
        else pixel c x y := by
    intro hlayer
    rw [drawSurface, hlayer, ite_self]
  have hout : ¬ (surface.bounds.Has x y ∧ rect.Has x y) →
      pixel c x y = if rect.Has x y then drawSurface c.memory x y (pixel c x y) surface
        else pixel c x y := by
    intro hnot
    by_cases hrect : rect.Has x y
    · exact hnone (layerAt_outside fun hbounds => hnot ⟨hbounds, hrect⟩)
    · rw [if_neg hrect]
  unfold blitSurfaceRect
  cases hpixels : surface.pixels with
  | none =>
    refine hnone ?_
    rw [Surface.layerAt, hpixels, Option.map_none, ite_self]
  | some pixels =>
    simp only
    split
    · rename_i hempty
      rcases hempty with hhidden | hempty
      · exact hnone (layerAt_hidden hhidden)
      · refine hout fun hhas => ?_
        simp only [Rect.Has] at hhas
        omega
    rename_i hnonempty
    have hvisible : surface.visible = true := by
      by_contra hnot
      exact hnonempty (.inl (Bool.eq_false_of_not_eq_true hnot))
    cases hclip : rectIntersect surface.bounds rect with
    | none => exact hout (rectIntersect_none hclip x y)
    | some clipped =>
      simp only
      cases hframe : rectIntersect clipped (framebufferRect c) with
      | none =>
        have hempty := rectIntersect_none hframe x y
        rw [framebufferRect_has, rectIntersect_has hclip] at hempty
        exact hout fun hhas => hempty ⟨hhas, hin⟩
      | some fb =>
        have hfb : fb.Has x y ↔ surface.bounds.Has x y ∧ rect.Has x y := by
          rw [rectIntersect_has hframe, rectIntersect_has hclip, framebufferRect_has]
          exact and_iff_left hin
        have hinside := rectIntersect_inside hframe
        rw [pixel_paint hinside hstride hin]
        by_cases hat : fb.Has x y
        · obtain ⟨hbounds, hrect⟩ := hfb.1 hat
          obtain ⟨hx, hy⟩ := rectIntersect_origin hclip
          obtain ⟨hx', hy'⟩ := rectIntersect_origin hframe
          have hrow : (fb.y - surface.bounds.y).toNat + (y - fb.y.toNat) =
              ((y : Int) - surface.bounds.y).toNat := by
            have := hinside.top
            simp only [Rect.Has] at hat
            omega
          have hcol : (fb.x - surface.bounds.x).toNat + (x - fb.x.toNat) =
              ((x : Int) - surface.bounds.x).toNat := by
            have := hinside.left
            simp only [Rect.Has] at hat
            omega
          rw [if_pos hat, if_pos hrect, drawSurface, Surface.layerAt,
            if_pos ⟨hid, hvisible, hbounds⟩, hpixels, Option.map_some, hrow, Nat.add_assoc, hcol]
          rfl
        · rw [if_neg hat]
          exact hout fun hhas => hat (hfb.2 hhas)

end RadKernel.Compositor
