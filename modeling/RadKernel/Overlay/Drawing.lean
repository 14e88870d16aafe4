import RadKernel.Overlay.Framebuffers

/-!
# Drawing inside the surface

Every store of a drawing call is that of a pixel of the framebuffer. It lies in the row of the pixel
when a row has room for all its pixels. The check of `rad_framebuffer_register_ex` multiplies in 32
bits, and `rad_framebuffer_set_mode` makes no check.
-/

namespace RadKernel.Overlay

variable {info : FramebufferInfo} {s s' : Runtime} {handle i : Nat} {fb : FramebufferRecord}

/-- A row has room for its pixels, in exact arithmetic. -/
def RowFits (width strideBytes format : UInt32) : Prop :=
  width.toNat * (bytesPerPixel format).toNat ≤ strideBytes.toNat

instance (width strideBytes format : UInt32) : Decidable (RowFits width strideBytes format) :=
  inferInstanceAs (Decidable (_ ≤ _))

def FramebufferInfo.Fits (info : FramebufferInfo) : Prop :=
  RowFits info.width info.strideBytes info.pixelFormat

/-- The store lies inside the row of its pixel. -/
structure PixelStore.InRow (store : PixelStore) (info : FramebufferInfo) : Prop where
  row : store.y < info.height
  start : store.y.toNat * info.strideBytes.toNat ≤ store.offset
  stop : store.offset + store.size ≤ (store.y.toNat + 1) * info.strideBytes.toNat

/-- The stores have no byte in common. -/
def PixelStore.Apart (store store' : PixelStore) : Prop :=
  store.offset + store.size ≤ store'.offset ∨ store'.offset + store'.size ≤ store.offset

/-- The rows have room, the stores of drawing calls stay in their rows, and those of different
pixels have no byte in common. -/
structure InSurface (s : Runtime) (handle : Nat) (info : FramebufferInfo) : Prop where
  fits : info.Fits
  inRow : ∀ call : DrawCall, ∀ store ∈ (call.perform s handle).2, store.InRow info
  apart : ∀ call call' : DrawCall, ∀ store ∈ (call.perform s handle).2,
    ∀ store' ∈ (call'.perform s handle).2, (store.x, store.y) ≠ (store'.x, store'.y) →
      store.Apart store'

/-! ## Stores -/

/-- The store is the one of a pixel of the framebuffer. -/
structure PixelStore.Of (info : FramebufferInfo) (store : PixelStore) : Prop where
  x : store.x < info.width
  y : store.y < info.height
  size : store.size = (bytesPerPixel info.pixelFormat).toNat
  offset : store.offset =
    store.y.toNat * info.strideBytes.toNat + store.x.toNat * (bytesPerPixel info.pixelFormat).toNat

theorem putPixel_of (x y color : UInt32) :
    ∀ store ∈ framebufferPutPixel info x y color, store.Of info := by
  intro store hstore
  unfold framebufferPutPixel at hstore
  split_ifs at hstore with hclip hrgb hxrgb
  · cases hstore
  · simp only [not_or, UInt32.not_le] at hclip
    rw [List.mem_singleton.1 hstore]
    exact ⟨hclip.2.1, hclip.2.2, by simp [bytesPerPixel, hrgb], by simp [bytesPerPixel, hrgb]⟩
  · simp only [not_or, UInt32.not_le] at hclip
    rw [List.mem_singleton.1 hstore]
    exact ⟨hclip.2.1, hclip.2.2, by simp [bytesPerPixel, hxrgb, pixelFormatRgb565, pixelFormatXrgb8888],
      by simp [bytesPerPixel, hxrgb, pixelFormatRgb565, pixelFormatXrgb8888]⟩
  · cases hstore

theorem fillRect_of (x y width height color : UInt32) :
    ∀ store ∈ framebufferFillRect info x y width height color, store.Of info := by
  intro store hstore
  obtain ⟨py, -, hrow⟩ := List.mem_flatMap.1 hstore
  obtain ⟨px, -, hpixel⟩ := List.mem_flatMap.1 hrow
  exact putPixel_of px py color store hpixel

theorem drawCell_of (cellX cellY : UInt32) (ch : UInt8) (foreground background : UInt32) :
    ∀ store ∈ framebufferDrawCell info cellX cellY ch foreground background, store.Of info := by
  intro store hstore
  simp only [framebufferDrawCell] at hstore
  split_ifs at hstore
  · exact fillRect_of _ _ _ _ _ store hstore
  · rcases List.mem_append.1 hstore with hfilled | hglyph
    · exact fillRect_of _ _ _ _ _ store hfilled
    · obtain ⟨row, -, hrow⟩ := List.mem_flatMap.1 hglyph
      obtain ⟨col, -, hcol⟩ := List.mem_flatMap.1 hrow
      split_ifs at hcol
      · exact putPixel_of _ _ _ store hcol
      · cases hcol

theorem drawChars_of (columns rows cellX foreground background : UInt32) (chars : CString) :
    ∀ x y, ∀ store ∈ drawChars info columns rows cellX foreground background chars x y,
      store.Of info := by
  induction chars with
  | nil => exact fun _ _ store hstore => absurd hstore List.not_mem_nil
  | cons ch rest ih =>
    intro x y store hstore
    rw [drawChars] at hstore
    split_ifs at hstore
    · cases hstore
    · exact ih _ _ store hstore
    · rcases List.mem_append.1 hstore with hcell | hrest
      · exact drawCell_of _ _ _ _ _ store hcell
      · exact ih _ _ store hrest
    · rcases List.mem_append.1 hstore with hcell | hrest
      · exact drawCell_of _ _ _ _ _ store hcell
      · exact ih _ _ store hrest

/-- A drawing call stores pixels of the framebuffer, wherever it draws and whatever the text. -/
theorem perform_of (hfb : framebufferFromHandle s handle = some fb) (call : DrawCall) :
    ∀ store ∈ (call.perform s handle).2, store.Of fb.info := by
  intro store hstore
  cases call with
  | clear color =>
    simp only [DrawCall.perform, radFramebufferClear, hfb] at hstore
    exact fillRect_of _ _ _ _ _ store hstore
  | drawText cellX cellY text foreground background =>
    simp only [DrawCall.perform, radFramebufferDrawText, hfb] at hstore
    split_ifs at hstore
    · cases hstore
    · exact drawChars_of _ _ _ _ _ _ _ _ store hstore

theorem PixelStore.Of.inRow {store : PixelStore} (h : store.Of info) (hfits : info.Fits) :
    store.InRow info := by
  obtain ⟨hx, hy, hsize, hoffset⟩ := h
  have hpixel : (store.x.toNat + 1) * (bytesPerPixel info.pixelFormat).toNat ≤
      info.strideBytes.toNat :=
    Nat.le_trans (Nat.mul_le_mul_right _ (UInt32.lt_iff_toNat_lt.1 hx)) hfits
  rw [Nat.succ_mul] at hpixel
  refine ⟨hy, by omega, ?_⟩
  rw [Nat.succ_mul]
  omega

/-- In rows with room the stores of different pixels have no byte in common. -/
theorem PixelStore.Of.apart {store store' : PixelStore} (h : store.Of info) (h' : store'.Of info)
    (hfits : info.Fits) (hne : (store.x, store.y) ≠ (store'.x, store'.y)) : store.Apart store' := by
  have hrow := h.inRow hfits
  have hrow' := h'.inRow hfits
  have hbelow : ∀ {y y' : Nat}, y < y' →
      (y + 1) * info.strideBytes.toNat ≤ y' * info.strideBytes.toNat := fun hlt =>
    Nat.mul_le_mul_right _ hlt
  rcases Nat.lt_trichotomy store.y.toNat store'.y.toNat with hlt | heq | hlt
  · exact .inl (Nat.le_trans hrow.stop (Nat.le_trans (hbelow hlt) hrow'.start))
  · -- In one row a pixel is a place further on.
    have hplace : ∀ {x x' : Nat}, x < x' → x * (bytesPerPixel info.pixelFormat).toNat +
        (bytesPerPixel info.pixelFormat).toNat ≤ x' * (bytesPerPixel info.pixelFormat).toNat := by
      intro x x' hlt
      rw [← Nat.succ_mul]
      exact Nat.mul_le_mul_right _ hlt
    have hx : store.x.toNat ≠ store'.x.toNat := fun hx =>
      hne (Prod.ext (UInt32.toNat_inj.1 hx) (UInt32.toNat_inj.1 heq))
    rw [PixelStore.Apart, h.offset, h'.offset, h.size, h'.size, heq]
    rcases Nat.lt_or_gt_of_ne hx with hlt | hlt
    · have := hplace hlt
      omega
    · have := hplace hlt
      omega
  · exact .inr (Nat.le_trans hrow'.stop (Nat.le_trans (hbelow hlt) hrow.start))

/-- Drawing into a surface whose rows have room. -/
theorem stores_inside (hfb : framebufferFromHandle s handle = some fb) :
    InSurface s handle fb.info ↔ fb.info.Fits := by
  refine ⟨fun h => h.fits, fun hfits => ⟨hfits, fun call store hstore => ?_, ?_⟩⟩
  · exact (perform_of hfb call store hstore).inRow hfits
  · intro call call' store hstore store' hstore' hne
    exact (perform_of hfb call store hstore).apart (perform_of hfb call' store' hstore') hfits hne

/-! ## Modes -/

/-- The call installs the geometry of another mode. -/
def Switches (s : Runtime) (handle : Nat) (call : UInt32 × Status) : Prop :=
  (framebufferFromHandle s handle).isSome = true ∧
    call.1 < (s.framebuffers handle).modeCount ∧ call.1 ≠ (s.framebuffers handle).currentMode ∧
    (s.framebuffers handle).setsMode = true ∧ call.2 = .ok

instance (s : Runtime) (handle : Nat) (call : UInt32 × Status) :
    Decidable (Switches s handle call) :=
  inferInstanceAs (Decidable (_ ∧ _))

/-- The rows of the mode that a call switches to have room. -/
def WideMode (handle : Nat) (s : Runtime) (call : UInt32 × Status) : Prop :=
  Switches s handle call →
    let mode := (s.framebuffers handle).modes call.1.toNat
    RowFits mode.width mode.strideBytes mode.pixelFormat

/-- `rad_framebuffer_set_mode`, with the answer of the callback. -/
def nextMode (handle : Nat) (s : Runtime) (call : UInt32 × Status) : Runtime :=
  (radFramebufferSetMode s handle call.1 call.2).2

theorem framebufferFromHandle_eq_some (h : framebufferFromHandle s handle = some fb) :
    handle < maxFramebuffers ∧ fb = s.framebuffers handle ∧ fb.used = true := by
  unfold framebufferFromHandle at h
  split_ifs at h with hused
  cases h
  exact ⟨hused.1, rfl, hused.2⟩

theorem nextMode_framebuffers (hfb : (framebufferFromHandle s handle).isSome = true)
    (call : UInt32 × Status) :
    (framebufferFromHandle (nextMode handle s call) handle).isSome = true ∧
      (Switches s handle call → (nextMode handle s call).framebuffers handle =
        (s.framebuffers handle).switched call.1) ∧
      (¬ Switches s handle call → nextMode handle s call = s) := by
  obtain ⟨fb, hsome⟩ := Option.isSome_iff_exists.1 hfb
  obtain ⟨hlt, rfl, hused⟩ := framebufferFromHandle_eq_some hsome
  have hrun : nextMode handle s call =
      if Switches s handle call then
        s.setFramebuffer handle ((s.framebuffers handle).switched call.1)
      else s := by
    rw [nextMode, radFramebufferSetMode, hsome]
    simp only [Switches, hfb, true_and]
    by_cases hcount : call.1 < (s.framebuffers handle).modeCount
    · rw [if_neg (UInt32.not_le.2 hcount)]
      split_ifs <;> simp_all
    · rw [if_pos (UInt32.not_lt.1 hcount), if_neg fun h => hcount h.1]
  rw [hrun]
  refine ⟨?_, fun h => ?_, fun h => if_neg h⟩
  · split_ifs
    · simp [framebufferFromHandle, Runtime.setFramebuffer, FramebufferRecord.switched, hlt, hused]
    · exact hfb
  · rw [if_pos h]
    exact Function.update_self ..

/-- The framebuffer in every state that the calls lead to. -/
def InSurfaceAll (s : Runtime) (handle : Nat) (calls : List (UInt32 × Status)) : Prop :=
  ∀ done, done <+: calls →
    InSurface (done.foldl (nextMode handle) s) handle
      ((done.foldl (nextMode handle) s).framebuffers handle).info

theorem inSurfaceAll_cons (call : UInt32 × Status) (calls : List (UInt32 × Status)) :
    InSurfaceAll s handle (call :: calls) ↔
      InSurface s handle (s.framebuffers handle).info ∧
        InSurfaceAll (nextMode handle s call) handle calls :=
  throughout_cons (P := fun s => InSurface s handle (s.framebuffers handle).info)

/-- A framebuffer that starts with room has it along the calls when every mode has it that they
switch to. -/
theorem inSurfaceAll_iff (hfb : (framebufferFromHandle s handle).isSome = true)
    (calls : List (UInt32 × Status)) :
    InSurfaceAll s handle calls ↔
      (s.framebuffers handle).info.Fits ∧ Along (nextMode handle) (WideMode handle) s calls := by
  induction calls generalizing s with
  | nil =>
    obtain ⟨fb, hsome⟩ := Option.isSome_iff_exists.1 hfb
    obtain ⟨-, rfl, -⟩ := framebufferFromHandle_eq_some hsome
    rw [← stores_inside hsome]
    refine ⟨fun h => ⟨h [] List.nil_prefix, trivial⟩, fun h done hdone => ?_⟩
    rw [List.prefix_nil.1 hdone]
    exact h.1
  | cons call calls ih =>
    obtain ⟨fb, hsome⟩ := Option.isSome_iff_exists.1 hfb
    obtain ⟨-, rfl, -⟩ := framebufferFromHandle_eq_some hsome
    obtain ⟨hfb', hswitches, hstays⟩ := nextMode_framebuffers hfb call
    rw [inSurfaceAll_cons, ih hfb', stores_inside hsome, Along, WideMode]
    by_cases h : Switches s handle call
    · rw [hswitches h]
      exact ⟨fun hall => ⟨hall.1, fun _ => hall.2.1, hall.2.2⟩,
        fun hall => ⟨hall.1, hall.2.1 h, hall.2.2⟩⟩
    · rw [hstays h]
      exact ⟨fun hall => ⟨hall.1, fun hs => absurd hs h, hall.2.2⟩,
        fun hall => ⟨hall.1, hall.1, hall.2.2⟩⟩

/-! ## Registration -/

/-- The records have the same surfaces; only primary flags differ. -/
def SameSurfaces (s s' : Runtime) : Prop :=
  ∀ i, (s'.framebuffers i).info = (s.framebuffers i).info ∧
    (s'.framebuffers i).used = (s.framebuffers i).used

theorem SameSurfaces.refl (s : Runtime) : SameSurfaces s s := fun _ => ⟨rfl, rfl⟩

theorem SameSurfaces.trans {s'' : Runtime} (h : SameSurfaces s s') (h' : SameSurfaces s' s'') :
    SameSurfaces s s'' :=
  fun i => ⟨(h' i).1.trans (h i).1, (h' i).2.trans (h i).2⟩

theorem sameSurfaces_dropPrimary (s : Runtime) (i : Nat) : SameSurfaces s (dropPrimary s i) := by
  intro j
  simp only [dropPrimary]
  split_ifs <;> exact ⟨rfl, rfl⟩

theorem sameSurfaces_setPrimary (s : Runtime) (name : CString) :
    SameSurfaces s (radFramebufferSetPrimary s name).2 := by
  unfold radFramebufferSetPrimary
  cases findFramebuffer s name with
  | none => exact .refl s
  | some i =>
    refine (sameSurfaces_dropPrimary s i).trans fun j => ?_
    by_cases hj : j = i
    · subst hj
      simp [Runtime.setFramebuffer, dropPrimary]
    · simp [Runtime.setFramebuffer, hj]

theorem sameSurfaces_bindNode (s : Runtime) (k : Nat) :
    SameSurfaces s (bindFramebufferNode s k) := by
  unfold bindFramebufferNode
  dsimp only
  cases (stringOf? s.buses.tree k "framebuffer").bind (findFramebuffer s) with
  | none => exact .refl s
  | some i =>
    split_ifs
    · exact sameSurfaces_setPrimary s _
    · exact .refl s

theorem sameSurfaces_bindTree (s : Runtime) : SameSurfaces s (bindFramebufferTree s) := by
  have hall : ∀ (nodes : List Nat) (s : Runtime),
      SameSurfaces s (nodes.foldl bindFramebufferNode s) := by
    intro nodes
    induction nodes with
    | nil => exact .refl
    | cons k rest ih => exact fun s => (sameSurfaces_bindNode s k).trans (ih _)
  exact hall _ s

theorem newFramebuffer_info (config : FramebufferConfig) (name : CString)
    (setsMode primary : Bool) : (newFramebuffer config name setsMode primary).info = config.info ∧
      (newFramebuffer config name setsMode primary).used = true := by
  unfold newFramebuffer
  split_ifs <;> exact ⟨rfl, rfl⟩

variable {config : FramebufferConfig}

/-- A framebuffer that is accepted has the surface that was asked for. -/
theorem registerEx_ok {setsMode : Bool} {registered : Status}
    (h : radFramebufferRegisterEx s config setsMode registered = (.ok, s'))
    (hi : freeFramebuffer s = some i) :
    config.Valid ∧ (framebufferFromHandle s' i).isSome = true ∧
      (s'.framebuffers i).info = config.info := by
  have hlt : i < maxFramebuffers := List.mem_range.1 (List.mem_of_find?_eq_some hi)
  unfold radFramebufferRegisterEx at h
  by_cases hvalid : config.Valid
  · rw [if_neg (not_not.2 hvalid)] at h
    by_cases hfound : (findFramebuffer s (config.name.getD [])).isSome = true
    · rw [if_pos hfound] at h
      cases (Prod.mk.inj h).1
    · rw [if_neg hfound, hi] at h
      dsimp only at h
      by_cases hanswer : registered = .ok
      · rw [if_neg (not_not.2 hanswer)] at h
        obtain ⟨hinfo, hused⟩ := newFramebuffer_info config (config.name.getD []) setsMode
          (config.primary || (findPrimaryFramebuffer s).isNone)
        obtain ⟨hinfo', hused'⟩ := sameSurfaces_bindTree (Runtime.setFramebuffer
          (if config.primary || (findPrimaryFramebuffer s).isNone then dropPrimary s i else s) i
          (newFramebuffer config (config.name.getD []) setsMode
            (config.primary || (findPrimaryFramebuffer s).isNone))) i
        simp only [Runtime.setFramebuffer, Function.update_self] at hinfo' hused'
        rw [← (Prod.mk.inj h).2]
        refine ⟨hvalid, ?_, hinfo'.trans hinfo⟩
        rw [framebufferFromHandle, if_pos ⟨hlt, hused'.trans hused⟩]
        rfl
      · rw [if_pos hanswer] at h
        exact absurd (Prod.mk.inj h).1 hanswer
  · rw [if_pos hvalid] at h
    cases (Prod.mk.inj h).1

/-- The rows of an accepted surface have room exactly when the product of the check does not wrap. -/
theorem fits_iff (h : config.Valid) :
    config.info.Fits ↔
      config.info.width.toNat * (bytesPerPixel config.info.pixelFormat).toNat < 2 ^ 32 := by
  have hcheck := UInt32.le_iff_toNat_le.1 h.2.2.2.2.2.1
  have hstride := config.info.strideBytes.toNat_lt
  rw [UInt32.toNat_mul] at hcheck
  rw [FramebufferInfo.Fits, RowFits]
  constructor
  · intro hfits
    omega
  · intro hlt
    rwa [Nat.mod_eq_of_lt hlt] at hcheck

/-- All drawing into a framebuffer stays inside its surface, whatever modes are set, exactly when the
width in bytes does not wrap in the check of the registration, and every mode that is switched to has
room in its rows. -/
theorem drawing_iff {config : FramebufferConfig} {setsMode : Bool} {registered : Status}
    (h : radFramebufferRegisterEx s config setsMode registered = (.ok, s'))
    (hi : freeFramebuffer s = some i) (calls : List (UInt32 × Status)) :
    InSurfaceAll s' i calls ↔
      config.info.width.toNat * (bytesPerPixel config.info.pixelFormat).toNat < 2 ^ 32 ∧
        Along (nextMode i) (WideMode i) s' calls := by
  obtain ⟨hvalid, hfb, hinfo⟩ := registerEx_ok h hi
  rw [inSurfaceAll_iff hfb, hinfo, fits_iff hvalid]

/-- A framebuffer of 64 by 64 pixels with a second mode whose rows are too short. -/
def panelConfig : FramebufferConfig where
  name := some (text "/dev/fb0")
  info :=
    { width := 64
      height := 64
      strideBytes := 256
      pixelFormat := pixelFormatXrgb8888
      pixels := some 0 }
  modeCount := 2
  modes := fun mode =>
    if mode = 0 then ⟨64, 64, 60, 256, pixelFormatXrgb8888⟩
    else ⟨128, 64, 60, 256, pixelFormatXrgb8888⟩

def panelRuntime : Runtime := (radFramebufferRegisterEx {} panelConfig true .ok).2

theorem panel_registered : radFramebufferRegisterEx {} panelConfig true .ok = (.ok, panelRuntime) :=
  Prod.ext (by decide +kernel) rfl

theorem drawing_panel : InSurfaceAll panelRuntime 0 [(0, .ok)] := by
  refine (drawing_iff panel_registered (by decide +kernel) _).2 ⟨by decide, ?_, trivial⟩
  intro hswitches
  exact absurd rfl hswitches.2.2.1

/-- Once the second mode is set the rows are too short. -/
theorem not_inSurface_panel :
    ¬ ∀ (s s' : Runtime) (config : FramebufferConfig) (setsMode : Bool) (registered : Status)
      (i : Nat) (calls : List (UInt32 × Status)),
      radFramebufferRegisterEx s config setsMode registered = (.ok, s') →
      freeFramebuffer s = some i → InSurfaceAll s' i calls := by
  intro hall
  have h := hall {} panelRuntime panelConfig true .ok 0 [(1, .ok)] panel_registered
    (by decide +kernel)
  obtain ⟨-, hwide, -⟩ :=
    (inSurfaceAll_iff (registerEx_ok panel_registered (by decide +kernel)).2.1 _).1 h
  have hfits := hwide (by decide +kernel)
  revert hfits
  decide +kernel

end RadKernel.Overlay
