import RadKernel.Compositor.Damage
import RadKernel.Lib.Run

/-!
# Frames show the picture

A run of the compositor starts from a framebuffer filled with the clear color. Between calls
the clients write pixels, and say so with the next call. While no call loses damage, every
composed frame is the picture of the surfaces.
-/

namespace RadKernel.Compositor

variable {c : State} {x y : Nat} {id flags : UInt32} {rect : Rect} {pixels : Option Nat}
  {stridePixels : Nat} {memory : Nat → UInt32} {call : Call}

/-- A call, and the pixels of the clients at the time of the call. -/
abbrev Event := (Nat → UInt32) × Call

def wrote (c : State) (memory : Nat → UInt32) : State := { c with memory := memory }

def next (c : State) (event : Event) : State := event.2.perform (wrote c event.1)

/-- A framebuffer filled with the clear color, as `rad_compositor_init` leaves it. -/
def Start (c : State) : Prop :=
  ∃ framebuffer memory width height stridePixels,
    init framebuffer memory width height stridePixels = .ok c ∧
      ∀ x y, InFrame c x y → pixel c x y = c.clearColor

def ShowsPicture (c : State) : Prop := ∀ x y, InFrame c x y → pixel c x y = picture c x y

/-- The area whose new contents a call announces. -/
def Announces (c : State) (x y : Nat) : Call → Prop
  | .submitSurfacePixels id pixels stridePixels =>
    ∃ i, findSurface c id = some i ∧ pixels ≠ none ∧
      (c.surfaces i).bounds.width.toNat ≤ stridePixels ∧ (c.surfaces i).bounds.Has x y
  | .queueDamage id rect flags =>
    ∃ i, findSurface c id = some i ∧ (damageRect (c.surfaces i).bounds rect flags).Has x y
  | .markSurfaceDirty id => ∃ i, findSurface c id = some i ∧ (c.surfaces i).bounds.Has x y
  | _ => False

/-- The pixel of the framebuffer shows the same contents of every surface. -/
def Unwritten (c : State) (memory : Nat → UInt32) (x y : Nat) : Prop :=
  ∀ i, (c.surfaces i).layerAt memory x y = (c.surfaces i).layerAt c.memory x y

/-- Contents change only in the area a call announces, heights are 32-bit values, and a frame
is composed of surfaces at distinct heights. -/
structure Proper (c : State) (event : Event) : Prop where
  announced : ∀ x y, InFrame c x y → Unwritten c event.1 x y ∨ Announces c x y event.2
  z : ∀ config, event.2 = .createSurface config → int32Min ≤ config.z
  distinct : event.2 = .composeFrame → DistinctZ c

/-- The call is not rejected. -/
def Accepted (c : State) : Call → Prop
  | .createSurface config => ConfigValid config ∧ freeSlot c ≠ none
  | .setSurfaceBounds id bounds => findSurface c id ≠ none ∧ 0 < bounds.width ∧ 0 < bounds.height
  | .submitSurfacePixels id pixels stridePixels =>
    ∃ i, findSurface c id = some i ∧ pixels ≠ none ∧
      (c.surfaces i).bounds.width.toNat ≤ stridePixels
  | .queueDamage id rect _ => findSurface c id ≠ none ∧ 0 < rect.width ∧ 0 < rect.height
  | .destroySurface id | .focusSurface id | .setSurfaceVisible id _ | .markSurfaceDirty id =>
    findSurface c id ≠ none
  | .composeFrame => True

/-- The rectangles that a call adds to the ring. -/
def Call.rects : Call → Nat
  | .destroySurface _ | .composeFrame => 0
  | .setSurfaceBounds _ _ => 2
  | _ => 1

/-- The ring has room for the rectangles of the call; a new surface has an identifier of its
own; a destroyed surface was hidden or is damaged already; a surface marked dirty is at the
origin or has no new contents; and no search of a composition passes over a surface. -/
structure Lossless (c : State) (event : Event) : Prop where
  room : Accepted c event.2 → c.damageCount + event.2.rects ≤ maxDamage
  unused : ∀ config, event.2 = .createSurface config → Accepted c event.2 →
    findSurface c c.nextSurfaceId = none
  exposed : ∀ id i, event.2 = .destroySurface id → findSurface c id = some i →
    (c.surfaces i).visible = true →
    ∀ x y, InFrame c x y → (c.surfaces i).bounds.Has x y → Damaged c x y
  origin : ∀ id i, event.2 = .markSurfaceDirty id → findSurface c id = some i →
    (c.surfaces i).bounds.x = 0 ∧ (c.surfaces i).bounds.y = 0 ∨
      ∀ x y, InFrame c x y → Unwritten c event.1 x y
  finds : event.2 = .composeFrame → ∀ r ∈ queued c, FindsAll c r

/-! ## Steps -/

theorem wrote_absorbs (h : ∀ x y, InFrame c x y → Unwritten c memory x y) :
    Absorbs c (wrote c memory) :=
  ⟨fun hsound => ⟨hsound.front, hsound.stride, hsound.z, hsound.nextId⟩, rfl, rfl, rfl,
    fun _ _ hold => hold, fun x y hin _ => h x y hin⟩

theorem queueDamage_absorbs (hroom : Accepted c (.queueDamage id rect flags) →
      c.damageCount < maxDamage)
    (hwrote : ∀ x y, InFrame c x y →
      Unwritten c memory x y ∨ Announces c x y (.queueDamage id rect flags)) :
    Absorbs c (queueDamage (wrote c memory) id rect flags).2 := by
  have hrejected : (∀ x y, ¬ Announces c x y (.queueDamage id rect flags)) →
      Absorbs c (wrote c memory) := fun hnone =>
    wrote_absorbs fun x y hin => (hwrote x y hin).resolve_right (hnone x y)
  by_cases hempty : rect.width ≤ 0 ∨ rect.height ≤ 0
  · rw [queueDamage, if_pos hempty]
    refine hrejected ?_
    rintro x y ⟨i, -, hhas⟩
    exact Rect.not_has_empty hempty _ _ _ hhas
  cases hfind : findSurface (wrote c memory) id with
  | none =>
    rw [queueDamage, if_neg hempty, hfind]
    refine hrejected ?_
    rintro x y ⟨i, hi, -⟩
    cases hi.symm.trans hfind
  | some i =>
    have haccepted : Accepted c (.queueDamage id rect flags) :=
      ⟨fun hnone => (by cases hnone.symm.trans hfind), by omega, by omega⟩
    have hadds := queueDamage_adds rect flags hfind (hroom haccepted)
    refine hadds.absorbs
      (fun hsound => ⟨hsound.front, hsound.stride, hsound.z, hsound.nextId⟩) rfl rfl rfl
      (fun _ _ hold => hold) fun x y hin _ hout => ?_
    refine (hwrote x y hin).resolve_right ?_
    rintro ⟨j, hj, hhas⟩
    cases hj.symm.trans hfind
    exact hout hhas

theorem submitSurfacePixels_absorbs
    (hroom : Accepted c (.submitSurfacePixels id pixels stridePixels) → c.damageCount < maxDamage)
    (hwrote : ∀ x y, InFrame c x y →
      Unwritten c memory x y ∨ Announces c x y (.submitSurfacePixels id pixels stridePixels)) :
    Absorbs c (submitSurfacePixels (wrote c memory) id pixels stridePixels).2 := by
  have hrejected : (∀ x y, ¬ Announces c x y (.submitSurfacePixels id pixels stridePixels)) →
      Absorbs c (wrote c memory) := fun hnone =>
    wrote_absorbs fun x y hin => (hwrote x y hin).resolve_right (hnone x y)
  rw [submitSurfacePixels]
  cases hfind : findSurface (wrote c memory) id with
  | none =>
    refine hrejected ?_
    rintro x y ⟨i, hi, -⟩
    cases hi.symm.trans hfind
  | some i =>
    simp only
    by_cases hinvalid : pixels = none ∨
        stridePixels < ((wrote c memory).surfaces i).bounds.width.toNat
    · rw [if_pos hinvalid]
      refine hrejected ?_
      rintro x y ⟨j, hj, hpixels, hstride, -⟩
      cases hj.symm.trans hfind
      rcases hinvalid with hnone | hshort
      · exact hpixels hnone
      · exact absurd hshort (Nat.not_lt.2 hstride)
    · rw [if_neg hinvalid]
      have haccepted : Accepted c (.submitSurfacePixels id pixels stridePixels) :=
        ⟨i, hfind, fun hnone => hinvalid (.inl hnone),
          Nat.not_lt.1 fun hshort => hinvalid (.inr hshort)⟩
      let submitted : Surface :=
        { (wrote c memory).surfaces i with pixels := pixels, stridePixels := stridePixels }
      have hself : (setSurface (wrote c memory) i submitted).surfaces i = submitted := by
        rw [setSurface_surfaces, if_pos rfl]
      have hfound : findSurface (setSurface (wrote c memory) i submitted)
          ((setSurface (wrote c memory) i submitted).surfaces i).id = some i := by
        have hid : submitted.id = ((wrote c memory).surfaces i).id := rfl
        rw [findSurface_setSurface hid, hself, hid, (findSurface_id hfind).1, hfind]
      have hadds := queueSurfaceFullDamage_adds 0 hfound (hroom haccepted)
      rw [hself] at hadds
      refine hadds.absorbs (fun hsound => ?_) rfl rfl rfl (fun _ _ hold => hold)
        fun x y hin _ hout j => ?_
      · exact Sound.setSurface (c := wrote c memory)
          ⟨hsound.front, hsound.stride, hsound.z, hsound.nextId⟩ i (hsound.z i)
      · have hsame : Unwritten c memory x y := by
          refine (hwrote x y hin).resolve_right ?_
          rintro ⟨k, hk, -, -, hhas⟩
          cases hk.symm.trans hfind
          exact hout hhas
        refine Eq.trans ?_ (hsame j)
        refine layers_setSurface ?_ j
        have hbounds : ¬ ((wrote c memory).surfaces i).bounds.Has x y := hout
        rw [layerAt_outside hout, layerAt_outside hbounds]

theorem markSurfaceDirty_absorbs (hroom : findSurface c id ≠ none → c.damageCount < maxDamage)
    (horigin : ∀ i, findSurface c id = some i →
      (c.surfaces i).bounds.x = 0 ∧ (c.surfaces i).bounds.y = 0 ∨
        ∀ x y, InFrame c x y → Unwritten c memory x y)
    (hwrote : ∀ x y, InFrame c x y →
      Unwritten c memory x y ∨ Announces c x y (.markSurfaceDirty id)) :
    Absorbs c (markSurfaceDirty (wrote c memory) id).2 := by
  rw [markSurfaceDirty]
  cases hfind : findSurface (wrote c memory) id with
  | none =>
    refine wrote_absorbs fun x y hin => (hwrote x y hin).resolve_right ?_
    rintro ⟨i, hi, -⟩
    cases hi.symm.trans hfind
  | some i =>
    refine queueDamage_absorbs (fun haccepted => hroom haccepted.1) fun x y hin => ?_
    rcases horigin i hfind with ⟨hx, hy⟩ | hsame
    · refine (hwrote x y hin).imp_right ?_
      rintro ⟨j, hj, hhas⟩
      cases hj.symm.trans hfind
      refine ⟨i, hfind, ?_⟩
      rw [damageRect, if_neg (by decide)]
      simp only [Rect.Has, wrote] at hhas ⊢
      omega
    · exact .inl (hsame x y hin)

/-- A call other than a composition damages every pixel whose layers it changes. -/
theorem next_absorbs (hproper : Proper c (memory, call)) (hlossless : Lossless c (memory, call))
    (hsound : Sound c) (hcall : call ≠ .composeFrame) : Absorbs c (next c (memory, call)) := by
  obtain ⟨hwrote, hz, -⟩ := hproper
  obtain ⟨hroom, hunused, hexposed, horigin, -⟩ := hlossless
  have hstill : (∀ x y, ¬ Announces c x y call) → Absorbs c (wrote c memory) := fun hnone =>
    wrote_absorbs fun x y hin => (hwrote x y hin).resolve_right (hnone x y)
  cases call with
  | createSurface config =>
    have hquiet := hstill fun _ _ h => h
    refine hquiet.trans (createSurface_absorbs (fun hvalid hslot => ?_) (hz config rfl)
      (hquiet.sound hsound))
    exact ⟨hroom ⟨hvalid, hslot⟩, hunused config rfl ⟨hvalid, hslot⟩⟩
  | destroySurface id =>
    exact (hstill fun _ _ h => h).trans (destroySurface_absorbs fun i => hexposed id i rfl)
  | setSurfaceBounds id bounds =>
    exact (hstill fun _ _ h => h).trans
      (setSurfaceBounds_absorbs fun hfind hwidth hheight => hroom ⟨hfind, hwidth, hheight⟩)
  | focusSurface id => exact (hstill fun _ _ h => h).trans (focusSurface_absorbs hroom)
  | setSurfaceVisible id visible =>
    exact (hstill fun _ _ h => h).trans (setSurfaceVisible_absorbs hroom)
  | submitSurfacePixels id pixels stridePixels => exact submitSurfacePixels_absorbs hroom hwrote
  | queueDamage id rect flags => exact queueDamage_absorbs hroom hwrote
  | markSurfaceDirty id =>
    exact markSurfaceDirty_absorbs hroom (fun i => horigin id i rfl) hwrote
  | composeFrame => exact absurd rfl hcall

/-- A composition leaves the picture behind, and no damage. -/
theorem next_compose (hproper : Proper c (memory, .composeFrame))
    (hlossless : Lossless c (memory, .composeFrame)) (hsound : Sound c) (hfresh : Fresh c) :
    Sound (next c (memory, .composeFrame)) ∧ Fresh (next c (memory, .composeFrame)) ∧
      ShowsPicture (next c (memory, .composeFrame)) := by
  have hwrote := wrote_absorbs fun x y hin =>
    (hproper.announced x y hin).resolve_right fun h => h
  have hdistinct : DistinctZ (wrote c memory) := hproper.distinct rfl
  obtain ⟨hfront, hstride, hz, hid⟩ := hwrote.sound hsound
  have hpixel : ∀ x y, InFrame (wrote c memory) x y →
      pixel (composeFrame (wrote c memory)) x y = stackColor (wrote c memory) x y := fun x y hin =>
    composeFrame_shows (hwrote.sound hsound) (hwrote.fresh hfresh) hdistinct (hlossless.finds rfl) hin
  change Sound (composeFrame (wrote c memory)) ∧ Fresh (composeFrame (wrote c memory)) ∧
    ShowsPicture (composeFrame (wrote c memory))
  obtain ⟨f, head, hframe⟩ := composeFrame_frame (wrote c memory)
  rw [hframe] at hpixel ⊢
  refine ⟨⟨hfront, hstride, hz, hid⟩, fun x y hin => .inr (hpixel x y hin), fun x y hin => ?_⟩
  exact (hpixel x y hin).trans (picture_eq hdistinct).symm

/-! ## Runs -/

def Allowed (c : State) (event : Event) : Prop := Proper c event ∧ Lossless c event

theorem Start.sound (h : Start c) : Sound c := by
  obtain ⟨framebuffer, memory, width, height, stride, hinit, -⟩ := h
  rw [init] at hinit
  split_ifs at hinit with hinvalid
  cases hinit
  exact ⟨rfl, by simp only; omega, fun _ => show int32Min ≤ 0 by decide, by simp only; decide⟩

theorem Start.fresh (h : Start c) : Fresh c := by
  obtain ⟨framebuffer, memory, width, height, stride, hinit, hclear⟩ := h
  rw [init] at hinit
  split_ifs at hinit with hinvalid
  cases hinit
  intro x y hin
  refine .inr ?_
  rw [hclear x y hin, stackColor, stack]
  have hnone : ∀ i ∈ List.finRange maxSurfaces,
      (fun _ : Fin maxSurfaces => ({} : Surface).layerAt memory x y) i = none :=
    fun i _ => layerAt_hidden rfl
  rw [List.filterMap_eq_nil_iff.2 hnone, Layers.bottomUp_nil, List.foldl_nil]

theorem invariant_of_run (h : Run (Obeys next Allowed) Start c) : Sound c ∧ Fresh c := by
  refine Run.invariant (J := fun c => Sound c ∧ Fresh c) h (fun c hc => ⟨hc.sound, hc.fresh⟩) ?_
  rintro c ⟨memory, call⟩ _ ⟨hsound, hfresh⟩ ⟨⟨hproper, hlossless⟩, rfl⟩
  by_cases hcall : call = .composeFrame
  · subst hcall
    obtain ⟨hsound', hfresh', -⟩ := next_compose hproper hlossless hsound hfresh
    exact ⟨hsound', hfresh'⟩
  · have habsorbs := next_absorbs hproper hlossless hsound hcall
    exact ⟨habsorbs.sound hsound, habsorbs.fresh hfresh⟩

/-- In a run whose calls lose no damage every composed frame is the picture. -/
theorem showsPicture_of_run (hrun : Run (Obeys next Allowed) Start c)
    (hcompose : Allowed c (memory, .composeFrame)) :
    ShowsPicture (next c (memory, .composeFrame)) := by
  obtain ⟨hsound, hfresh⟩ := invariant_of_run hrun
  exact (next_compose hcompose.1 hcompose.2 hsound hfresh).2.2

/-- A framebuffer of one pixel. -/
def onePixel : State where
  framebuffer := fun _ => 0xff07111f
  frontbuffer := none
  framebufferWidth := 1
  framebufferHeight := 1
  framebufferStridePixels := 1
  frontbufferStridePixels := 1
  clearColor := 0xff07111f
  nextSurfaceId := 1
  damageHead := 0
  damageCount := 0
  surfaces := fun _ => {}
  damage := fun _ => {}
  memory := fun _ => 0xffff0000

theorem onePixel_start : Start onePixel :=
  ⟨fun _ => 0xff07111f, fun _ => 0xffff0000, 1, 1, 1, rfl, fun _ _ _ => rfl⟩

def redSurface : SurfaceConfig := ⟨0, 0, 1, 1, 0, 0, some 0, 1⟩

def red : Nat → UInt32 := fun _ => 0xffff0000

/-- Three surfaces at the heights 1, 3 and 2. -/
def stacked : State :=
  { onePixel with
    surfaces := fun i =>
      match i.val with
      | 0 => { redSurface.surface 1 with z := 1 }
      | 1 => { redSurface.surface 2 with z := 3 }
      | 2 => { redSurface.surface 3 with z := 2 }
      | _ => {} }

-- Once the lowest surface is drawn the search starts at 2, and stays with the surface at 3.
example : (nextSurface stacked ⟨0, 0, 1, 1⟩ 2).map Fin.val = some 1 ∧
    nextSurface stacked ⟨0, 0, 1, 1⟩ 4 = none ∧ PassesOver stacked ⟨0, 0, 1, 1⟩ := by
  decide +kernel

/-- A client that writes no pixels. -/
theorem Proper.quiet (hmemory : c.memory = red) (hz : ∀ config, call = .createSurface config →
      int32Min ≤ config.z) (hdistinct : call = .composeFrame → DistinctZ c) :
    Proper c (red, call) :=
  ⟨fun _ _ _ => .inl fun _ => by rw [hmemory], hz, hdistinct⟩

def created : State := next onePixel (red, .createSurface redSurface)
def composed : State := next created (red, .composeFrame)
def destroyed : State := next composed (red, .destroySurface 1)

theorem proper_create : Proper onePixel (red, .createSurface redSurface) :=
  .quiet rfl (fun config hconfig => by cases hconfig; decide) fun hcall => by cases hcall

theorem proper_compose : Proper created (red, .composeFrame) :=
  .quiet rfl (fun config hconfig => by cases hconfig) fun _ => by decide +kernel

/-- A destroyed surface stays on the screen. -/
theorem not_showsPicture_destroyed : ¬ ∀ (c : State) (memory : Nat → UInt32),
    Run (Obeys next Proper) Start c → Proper c (memory, .composeFrame) →
      ShowsPicture (next c (memory, .composeFrame)) := by
  intro h
  have hdestroy : Proper composed (red, .destroySurface 1) :=
    .quiet rfl (fun config hconfig => by cases hconfig) fun hcall => by cases hcall
  have hlast : Proper destroyed (red, .composeFrame) :=
    .quiet rfl (fun config hconfig => by cases hconfig) fun _ => by decide +kernel
  have hrun : Run (Obeys next Proper) Start destroyed :=
    (((Run.start onePixel_start).step ⟨proper_create, rfl⟩).step ⟨proper_compose, rfl⟩).step ⟨hdestroy, rfl⟩
  have hshows := h destroyed red hrun hlast 0 0 ⟨by decide +kernel, by decide +kernel⟩
  have hnone : visibleSurfaces (next destroyed (red, .composeFrame)) = [] := by decide +kernel
  rw [picture, hnone, Layers.bottomUp_nil] at hshows
  revert hshows
  decide +kernel

/-- A created surface is in the next frame. -/
theorem showsPicture_created : ShowsPicture composed := by
  have hkept : Lossless onePixel (red, .createSurface redSurface) :=
    { room := fun _ => by decide
      unused := fun _ _ _ => by decide +kernel
      exposed := fun _ _ hcall => by cases hcall
      origin := fun _ _ hcall => by cases hcall
      finds := fun hcall => by cases hcall }
  have hfound : Lossless created (red, .composeFrame) :=
    { room := fun _ => by decide +kernel
      unused := fun _ hcall => by cases hcall
      exposed := fun _ _ hcall => by cases hcall
      origin := fun _ _ hcall => by cases hcall
      finds := fun _ => by decide +kernel }
  have hrun := (Run.start onePixel_start).step
    (show Obeys next Allowed onePixel (red, .createSurface redSurface) created from
      ⟨⟨proper_create, hkept⟩, rfl⟩)
  exact showsPicture_of_run hrun ⟨proper_compose, hfound⟩

end RadKernel.Compositor
