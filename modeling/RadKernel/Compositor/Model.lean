import Mathlib.Data.List.FinRange
import RadKernel.Kernel.State
import RadKernel.Lib.Raster

/-!
# The compositor

The surfaces, the ring of damaged rectangles and the frame composition of
`services/RADCompositor/RADCompositorCore.cpp`. Coordinates are integers. The framebuffer,
the front buffer and the memory with the pixels of the clients are functions of an address,
counted in pixels. Names, titles, the focus, the dirty flags and the list of presented
rectangles are left out: nothing here reads them.
-/

namespace RadKernel.Compositor

def maxSurfaces : Nat := 16
def maxDamage : Nat := 64
def surfaceAlpha : UInt32 := 1
def damageExposed : UInt32 := 1
def int32Min : Int := -2 ^ 31

/-- `rad_compositor_rect_t`. -/
structure Rect where
  x : Int := 0
  y : Int := 0
  width : Int := 0
  height : Int := 0
  deriving DecidableEq, Repr

/-- `rad_compositor_surface_info_t`. A slot that is not in use has the identifier 0. -/
structure Surface where
  id : UInt32 := 0
  bounds : Rect := {}
  z : Int := 0
  flags : UInt32 := 0
  visible : Bool := false
  pixels : Option Nat := none
  stridePixels : Nat := 0
  deriving DecidableEq, Repr

/-- `rad_compositor_surface_config_t`. -/
structure SurfaceConfig where
  x : Int
  y : Int
  width : Int
  height : Int
  z : Int
  flags : UInt32
  pixels : Option Nat
  stridePixels : Nat

/-- `rad_compositor_damage_t`. -/
structure Damage where
  surfaceId : UInt32 := 0
  rect : Rect := {}
  flags : UInt32 := 0

/-- `rad_compositor_t`, with the memory of the clients in `memory`. -/
structure State where
  framebuffer : Nat → UInt32
  frontbuffer : Option (Nat → UInt32)
  framebufferWidth : Nat
  framebufferHeight : Nat
  framebufferStridePixels : Nat
  frontbufferStridePixels : Nat
  clearColor : UInt32
  nextSurfaceId : UInt32
  damageHead : Nat
  damageCount : Nat
  surfaces : Fin maxSurfaces → Surface
  damage : Nat → Damage
  memory : Nat → UInt32

/-- `rad_compositor_init`. -/
def init (framebuffer memory : Nat → UInt32) (width height stridePixels : Nat) :
    Except Status State :=
  if width = 0 ∨ height = 0 ∨ stridePixels < width then .error .invalidArgument
  else .ok
    { framebuffer := framebuffer
      frontbuffer := none
      framebufferWidth := width
      framebufferHeight := height
      framebufferStridePixels := stridePixels
      frontbufferStridePixels := stridePixels
      clearColor := 0xff07111f
      nextSurfaceId := 1
      damageHead := 0
      damageCount := 0
      surfaces := fun _ => {}
      damage := fun _ => {}
      memory := memory }

def findSurface (c : State) (surfaceId : UInt32) : Option (Fin maxSurfaces) :=
  if surfaceId = 0 then none
  else (List.finRange maxSurfaces).find? fun i => (c.surfaces i).id = surfaceId

def rectIntersect (a b : Rect) : Option Rect :=
  let x0 := if b.x < a.x then a.x else b.x
  let y0 := if b.y < a.y then a.y else b.y
  let x1 := if a.x + a.width < b.x + b.width then a.x + a.width else b.x + b.width
  let y1 := if a.y + a.height < b.y + b.height then a.y + a.height else b.y + b.height
  if x1 ≤ x0 ∨ y1 ≤ y0 then none
  else some { x := x0, y := y0, width := x1 - x0, height := y1 - y0 }

def framebufferRect (c : State) : Rect :=
  { width := c.framebufferWidth, height := c.framebufferHeight }

def blendPixel (dst src : UInt32) : UInt32 :=
  let alpha : UInt32 := (src >>> 24) &&& 0xff
  if alpha = 0xff then src
  else if alpha = 0 then dst
  else
    let inv : UInt32 := 255 - alpha
    let sr : UInt32 := (src >>> 16) &&& 0xff
    let sg : UInt32 := (src >>> 8) &&& 0xff
    let sb : UInt32 := src &&& 0xff
    let dr : UInt32 := (dst >>> 16) &&& 0xff
    let dg : UInt32 := (dst >>> 8) &&& 0xff
    let db : UInt32 := dst &&& 0xff
    let r : UInt32 := (sr * alpha + dr * inv + 127) / 255
    let g : UInt32 := (sg * alpha + dg * inv + 127) / 255
    let b : UInt32 := (sb * alpha + db * inv + 127) / 255
    (0xff000000 : UInt32) ||| (r <<< 16) ||| (g <<< 8) ||| b

/-! ## Damage -/

/-- The place of a rectangle handed to `rad_compositor_queue_damage`: a surface-relative one,
unless it was exposed. -/
def damageRect (bounds rect : Rect) (flags : UInt32) : Rect :=
  if flags &&& damageExposed ≠ 0 then rect
  else { rect with x := bounds.x + rect.x, y := bounds.y + rect.y }

/-- `rad_compositor_queue_damage`. A full ring is replaced by the bounds of one surface. -/
def queueDamage (c : State) (surfaceId : UInt32) (rect : Rect) (flags : UInt32) :
    Status × State :=
  if rect.width ≤ 0 ∨ rect.height ≤ 0 then (.invalidArgument, c)
  else
    match findSurface c surfaceId with
    | none => (.notFound, c)
    | some i =>
      let bounds := (c.surfaces i).bounds
      let index := (c.damageHead + c.damageCount) % maxDamage
      if maxDamage ≤ c.damageCount then
        (.ok,
          { c with
            damageHead := 0
            damageCount := 1
            damage := Function.update c.damage 0 ⟨surfaceId, bounds, flags⟩ })
      else
        (.ok,
          { c with
            damage :=
              Function.update c.damage index ⟨surfaceId, damageRect bounds rect flags, flags⟩
            damageCount := c.damageCount + 1 })

def queueSurfaceFullDamage (c : State) (i : Fin maxSurfaces) (flags : UInt32) : State :=
  let surface := c.surfaces i
  if surface.id = 0 then c
  else
    let rect : Rect :=
      if flags &&& damageExposed ≠ 0 then surface.bounds
      else { width := surface.bounds.width, height := surface.bounds.height }
    (queueDamage c surface.id rect flags).2

def setSurface (c : State) (i : Fin maxSurfaces) (surface : Surface) : State :=
  { c with surfaces := Function.update c.surfaces i surface }

/-- `rad_compositor_mark_surface_dirty`. -/
def markSurfaceDirty (c : State) (surfaceId : UInt32) : Status × State :=
  match findSurface c surfaceId with
  | none => (.notFound, c)
  | some i => queueDamage c surfaceId (c.surfaces i).bounds 0

/-! ## Surfaces -/

def ConfigValid (config : SurfaceConfig) : Prop :=
  config.pixels ≠ none ∧ 0 < config.width ∧ 0 < config.height ∧
    config.width.toNat ≤ config.stridePixels

instance (config : SurfaceConfig) : Decidable (ConfigValid config) :=
  inferInstanceAs (Decidable (_ ∧ _))

def freeSlot (c : State) : Option (Fin maxSurfaces) :=
  (List.finRange maxSurfaces).find? fun i => (c.surfaces i).id = 0

def SurfaceConfig.surface (config : SurfaceConfig) (id : UInt32) : Surface where
  id := id
  bounds := ⟨config.x, config.y, config.width, config.height⟩
  z := config.z
  flags := config.flags
  visible := true
  pixels := config.pixels
  stridePixels := config.stridePixels

/-- `rad_compositor_create_surface`. -/
def createSurface (c : State) (config : SurfaceConfig) : Except Status UInt32 × State :=
  if ¬ ConfigValid config then (.error .invalidArgument, c)
  else
    match freeSlot c with
    | none => (.error .noMemory, c)
    | some i =>
      let id := c.nextSurfaceId
      let next := if id + 1 = 0 then 1 else id + 1
      let created := setSurface { c with nextSurfaceId := next } i (config.surface id)
      (.ok id, queueSurfaceFullDamage created i 0)

/-- `rad_compositor_destroy_surface`. -/
def destroySurface (c : State) (surfaceId : UInt32) : Status × State :=
  match findSurface c surfaceId with
  | none => (.notFound, c)
  | some i => (.ok, setSurface c i {})

/-- `rad_compositor_set_surface_bounds`. -/
def setSurfaceBounds (c : State) (surfaceId : UInt32) (bounds : Rect) :
    Status × State :=
  match findSurface c surfaceId with
  | none => (.invalidArgument, c)
  | some i =>
    if bounds.width ≤ 0 ∨ bounds.height ≤ 0 then (.invalidArgument, c)
    else
      let oldBounds := (c.surfaces i).bounds
      let queued := (queueDamage c surfaceId oldBounds damageExposed).2
      let moved := setSurface queued i { queued.surfaces i with bounds := bounds }
      (.ok, queueSurfaceFullDamage moved i 0)

/-- The greatest `z` of the surfaces in use, and of `z`. -/
def maxZ (c : State) (z : Int) : Int :=
  (List.finRange maxSurfaces).foldl
    (fun maxZ i =>
      if (c.surfaces i).id ≠ 0 ∧ maxZ < (c.surfaces i).z then (c.surfaces i).z else maxZ) z

/-- `rad_compositor_focus_surface`. -/
def focusSurface (c : State) (surfaceId : UInt32) : Status × State :=
  match findSurface c surfaceId with
  | none => (.notFound, c)
  | some i =>
    let surface := c.surfaces i
    let raised := setSurface c i { surface with z := maxZ c surface.z + 1 }
    (.ok, queueSurfaceFullDamage raised i 0)

/-- `rad_compositor_set_surface_visible`. -/
def setSurfaceVisible (c : State) (surfaceId : UInt32) (visible : Bool) :
    Status × State :=
  match findSurface c surfaceId with
  | none => (.notFound, c)
  | some i =>
    let shown := setSurface c i { c.surfaces i with visible := visible }
    (.ok, queueSurfaceFullDamage shown i (if visible then 0 else damageExposed))

/-- `rad_compositor_submit_surface_pixels`. -/
def submitSurfacePixels (c : State) (surfaceId : UInt32) (pixels : Option Nat)
    (stridePixels : Nat) : Status × State :=
  match findSurface c surfaceId with
  | none => (.invalidArgument, c)
  | some i =>
    let surface := c.surfaces i
    if pixels = none ∨ stridePixels < surface.bounds.width.toNat then (.invalidArgument, c)
    else
      let submitted :=
        setSurface c i { surface with pixels := pixels, stridePixels := stridePixels }
      (.ok, queueSurfaceFullDamage submitted i 0)

/-! ## Composition -/

/-- `copy_forward_rect`. Without a front buffer the rectangle is cleared. -/
def copyForwardRect (c : State) (rect : Rect) : State :=
  let x := rect.x.toNat
  let y := rect.y.toNat
  let source (row col : Nat) : UInt32 :=
    match c.frontbuffer with
    | none => c.clearColor
    | some front => front ((y + row) * c.frontbufferStridePixels + x + col)
  { c with
    framebuffer :=
      Raster.paint (fun row col _ => source row col) c.framebufferStridePixels x y
        rect.width.toNat rect.height.toNat c.framebuffer }

/-- The color of a pixel of a surface over the color below it. -/
def drawPixel (alpha : Bool) (dst src : UInt32) : UInt32 :=
  if alpha then blendPixel dst src else src

def Surface.isAlpha (surface : Surface) : Bool := surface.flags &&& surfaceAlpha ≠ 0

def blitSurfaceRect (c : State) (surface : Surface) (damage : Rect) : State :=
  match surface.pixels with
  | none => c
  | some pixels =>
    if surface.visible = false ∨ surface.bounds.width ≤ 0 ∨ surface.bounds.height ≤ 0 then c
    else
      match rectIntersect surface.bounds damage with
      | none => c
      | some clipped =>
        match rectIntersect clipped (framebufferRect c) with
        | none => c
        | some fb =>
          let srcX0 := (fb.x - surface.bounds.x).toNat
          let srcY0 := (fb.y - surface.bounds.y).toNat
          let source (row col : Nat) : UInt32 :=
            c.memory (pixels + (srcY0 + row) * surface.stridePixels + srcX0 + col)
          { c with
            framebuffer :=
              Raster.paint (fun row col dst => drawPixel surface.isAlpha dst (source row col))
                c.framebufferStridePixels fb.x.toNat fb.y.toNat fb.width.toNat fb.height.toNat
                c.framebuffer }

/-- One turn of the search of `draw_surfaces_for_rect` for the surface to draw next. -/
def lowerSurface (c : State) (rect : Rect) (lastZ : Int) (next : Option (Fin maxSurfaces))
    (i : Fin maxSurfaces) : Option (Fin maxSurfaces) :=
  let surface := c.surfaces i
  if surface.id = 0 ∨ surface.visible = false ∨ surface.z < lastZ then next
  else if rectIntersect surface.bounds rect = none then next
  else
    match next with
    | none => some i
    | some j =>
      if surface.z = lastZ then some j
      else if surface.z < (c.surfaces j).z then some i
      else some j

def nextSurface (c : State) (rect : Rect) (lastZ : Int) : Option (Fin maxSurfaces) :=
  (List.finRange maxSurfaces).foldl (lowerSurface c rect lastZ) none

/-- The loop of `draw_surfaces_for_rect`. Each turn draws a surface above the last one, so
that as many turns as there are slots draw them all. -/
def drawSurfacesFrom (rect : Rect) : Nat → Int → State → State
  | 0, _, c => c
  | turns + 1, lastZ, c =>
    match nextSurface c rect lastZ with
    | none => c
    | some i =>
      drawSurfacesFrom rect turns ((c.surfaces i).z + 1) (blitSurfaceRect c (c.surfaces i) rect)

def drawSurfacesForRect (c : State) (rect : Rect) : State :=
  drawSurfacesFrom rect maxSurfaces int32Min c

def composeRect (c : State) (rect : Rect) : State :=
  match rectIntersect rect (framebufferRect c) with
  | none => c
  | some clipped => drawSurfacesForRect (copyForwardRect c clipped) clipped

/-- The rectangles of the ring, oldest first. -/
def queued (c : State) : List Rect :=
  (List.range c.damageCount).map fun n => (c.damage ((c.damageHead + n) % maxDamage)).rect

/-- `rad_compositor_compose_frame`. -/
def composeFrame (c : State) : State :=
  if c.damageCount = 0 then c
  else { (queued c).foldl composeRect c with damageHead := 0, damageCount := 0 }

/-! ## Calls -/

inductive Call where
  | createSurface (config : SurfaceConfig)
  | destroySurface (surfaceId : UInt32)
  | setSurfaceBounds (surfaceId : UInt32) (bounds : Rect)
  | focusSurface (surfaceId : UInt32)
  | setSurfaceVisible (surfaceId : UInt32) (visible : Bool)
  | submitSurfacePixels (surfaceId : UInt32) (pixels : Option Nat) (stridePixels : Nat)
  | queueDamage (surfaceId : UInt32) (rect : Rect) (flags : UInt32)
  | markSurfaceDirty (surfaceId : UInt32)
  | composeFrame

def Call.perform (c : State) : Call → State
  | .createSurface config => (Compositor.createSurface c config).2
  | .destroySurface id => (Compositor.destroySurface c id).2
  | .setSurfaceBounds id bounds => (Compositor.setSurfaceBounds c id bounds).2
  | .focusSurface id => (Compositor.focusSurface c id).2
  | .setSurfaceVisible id visible => (Compositor.setSurfaceVisible c id visible).2
  | .submitSurfacePixels id pixels stride => (Compositor.submitSurfacePixels c id pixels stride).2
  | .queueDamage id rect flags => (Compositor.queueDamage c id rect flags).2
  | .markSurfaceDirty id => (Compositor.markSurfaceDirty c id).2
  | .composeFrame => Compositor.composeFrame c

end RadKernel.Compositor
