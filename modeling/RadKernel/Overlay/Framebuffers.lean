import RadKernel.Overlay.Bus

/-!
# Framebuffers

The table of framebuffers, their modes, and drawing. A drawing call is the list of its stores, in the
order they are made; the memory of the pixels is not read. What `rad_device_register` and the
`set_mode` callback answer is part of the call that runs them. The other callbacks, the open counts
and the device operations are left out: no call here reads them.
-/

namespace RadKernel.Overlay

def maxFramebuffers : Nat := 4
def framebufferMaxModes : UInt32 := 8
def framebufferNameMax : Nat := 64
def displayConnectorMax : Nat := 32
def pixelFormatRgb565 : UInt32 := 1
def pixelFormatXrgb8888 : UInt32 := 2

/-! ## State -/

/-- `rad_framebuffer_info_t`. -/
structure FramebufferInfo where
  width : UInt32 := 0
  height : UInt32 := 0
  strideBytes : UInt32 := 0
  pixelFormat : UInt32 := 0
  pixels : Option Nat := none
  deriving DecidableEq, Repr

/-- `rad_display_mode_t`. -/
structure DisplayMode where
  width : UInt32 := 0
  height : UInt32 := 0
  refreshHz : UInt32 := 0
  strideBytes : UInt32 := 0
  pixelFormat : UInt32 := 0
  deriving DecidableEq, Repr

/-- `rad_framebuffer_config_t`. -/
structure FramebufferConfig where
  name : Option CString := none
  info : FramebufferInfo := {}
  outputType : Nat := 0
  connector : Option CString := none
  modeCount : UInt32 := 0
  preferredMode : UInt32 := 0
  modes : Nat → DisplayMode := fun _ => {}
  primary : Bool := false

structure FramebufferRecord where
  name : CString := []
  info : FramebufferInfo := {}
  outputType : Nat := 0
  connector : CString := []
  modeCount : UInt32 := 0
  preferredMode : UInt32 := 0
  currentMode : UInt32 := 0
  modes : Nat → DisplayMode := fun _ => {}
  /-- There is a `set_mode` callback. -/
  setsMode : Bool := false
  used : Bool := false
  primary : Bool := false

/-- The buses with the tree and the domains, and the framebuffers. -/
structure Runtime where
  buses : Buses := {}
  framebuffers : Nat → FramebufferRecord := fun _ => {}

def Runtime.setFramebuffer (s : Runtime) (i : Nat) (fb : FramebufferRecord) : Runtime :=
  { s with framebuffers := Function.update s.framebuffers i fb }

def Runtime.setTree (s : Runtime) (t : TreeState) : Runtime :=
  { s with buses := { s.buses with tree := t } }

/-! ## Registration -/

def findFramebuffer (s : Runtime) (name : CString) : Option Nat :=
  (List.range maxFramebuffers).find? fun i =>
    (s.framebuffers i).used ∧ (s.framebuffers i).name = name

def findPrimaryFramebuffer (s : Runtime) : Option Nat :=
  ((List.range maxFramebuffers).find? fun i =>
    (s.framebuffers i).used ∧ (s.framebuffers i).primary).or
  ((List.range maxFramebuffers).find? fun i => (s.framebuffers i).used)

def freeFramebuffer (s : Runtime) : Option Nat :=
  (List.range maxFramebuffers).find? fun i => !(s.framebuffers i).used

def displayOutputTypeName (type : Nat) : CString :=
  match type with
  | 0 => text "memory"
  | 1 => text "circle"
  | 2 => text "grub"
  | 3 => text "rp2350-hstx"
  | 4 => text "spi-panel"
  | 5 => text "bcm283x-mailbox"
  | _ => text "unknown"

/-- The number of bytes of a pixel; 0 when the format is none of the two. -/
def bytesPerPixel (format : UInt32) : UInt32 :=
  if format = pixelFormatRgb565 then 2 else if format = pixelFormatXrgb8888 then 4 else 0

/-- The configuration passes the checks of `rad_framebuffer_register_ex`; the product is one of
32 bits. -/
def FramebufferConfig.Valid (config : FramebufferConfig) : Prop :=
  config.name ≠ none ∧ config.info.pixels ≠ none ∧ config.info.width ≠ 0 ∧
    config.info.height ≠ 0 ∧ bytesPerPixel config.info.pixelFormat ≠ 0 ∧
    config.info.width * bytesPerPixel config.info.pixelFormat ≤ config.info.strideBytes ∧
    config.modeCount ≤ framebufferMaxModes ∧
    (0 < config.modeCount → config.preferredMode < config.modeCount)

instance (config : FramebufferConfig) : Decidable config.Valid :=
  inferInstanceAs (Decidable (_ ∧ _))

def newFramebuffer (config : FramebufferConfig) (name : CString) (setsMode primary : Bool) :
    FramebufferRecord :=
  let fb : FramebufferRecord :=
    { name := copyString framebufferNameMax name
      info := config.info
      outputType := config.outputType
      connector := copyString displayConnectorMax
        (config.connector.getD (displayOutputTypeName config.outputType))
      setsMode, primary
      used := true }
  if config.modeCount = 0 then
    { fb with
      modeCount := 1
      modes := Function.update (fun _ => {}) 0
        { width := config.info.width
          height := config.info.height
          strideBytes := config.info.strideBytes
          pixelFormat := config.info.pixelFormat } }
  else
    { fb with
      modeCount := config.modeCount
      preferredMode := config.preferredMode
      currentMode := config.preferredMode
      modes := fun mode => if mode < config.modeCount.toNat then config.modes mode else {} }

/-- The primary flags of the other framebuffers are dropped. -/
def dropPrimary (s : Runtime) (i : Nat) : Runtime :=
  { s with framebuffers := fun other =>
      if other ≠ i ∧ other < maxFramebuffers then
        { s.framebuffers other with primary := false }
      else s.framebuffers other }

/-- `rad_framebuffer_set_primary`. -/
def radFramebufferSetPrimary (s : Runtime) (name : CString) : Status × Runtime :=
  match findFramebuffer s name with
  | none => (.notFound, s)
  | some i => (.ok, (dropPrimary s i).setFramebuffer i { s.framebuffers i with primary := true })

/-- A round of `bind_framebuffer_tree`. -/
def bindFramebufferNode (s : Runtime) (k : Nat) : Runtime :=
  let t := s.buses.tree
  match (stringOf? t k "framebuffer").bind (findFramebuffer s) with
  | none => s
  | some i =>
    let s :=
      if (t.valueOf? k (text "primary") treePropBool).any (·.boolValue) then
        (radFramebufferSetPrimary s (s.framebuffers i).name).2
      else s
    let t :=
      match stringOf? t k "module" with
      | none => t
      | some module => setModule t k module
    s.setTree (setBound t k true)

def bindFramebufferTree (s : Runtime) : Runtime :=
  (List.range s.buses.tree.nodes.length).foldl bindFramebufferNode s

/-- `rad_framebuffer_register_ex`; `registered` is the answer of `rad_device_register`. -/
def radFramebufferRegisterEx (s : Runtime) (config : FramebufferConfig) (setsMode : Bool)
    (registered : Status) : Status × Runtime :=
  if ¬ config.Valid then (.invalidArgument, s)
  else
    let name := config.name.getD []
    if (findFramebuffer s name).isSome then (.alreadyExists, s)
    else
      match freeFramebuffer s with
      | none => (.noMemory, s)
      | some i =>
        let primary := config.primary || (findPrimaryFramebuffer s).isNone
        let s := if primary then dropPrimary s i else s
        if registered ≠ .ok then (registered, s.setFramebuffer i {})
        else
          (.ok, bindFramebufferTree
            (s.setFramebuffer i (newFramebuffer config name setsMode primary)))

/-! ## Modes -/

def framebufferFromHandle (s : Runtime) (handle : Nat) : Option FramebufferRecord :=
  if handle < maxFramebuffers ∧ (s.framebuffers handle).used = true then
    some (s.framebuffers handle)
  else none

def FramebufferRecord.switched (fb : FramebufferRecord) (modeIndex : UInt32) : FramebufferRecord :=
  let mode := fb.modes modeIndex.toNat
  { fb with
    currentMode := modeIndex
    info :=
      { fb.info with
        width := mode.width
        height := mode.height
        strideBytes := mode.strideBytes
        pixelFormat := mode.pixelFormat } }

/-- `rad_framebuffer_set_mode`, with the answer of the callback. -/
def radFramebufferSetMode (s : Runtime) (handle : Nat) (modeIndex : UInt32) (answer : Status) :
    Status × Runtime :=
  match framebufferFromHandle s handle with
  | none => (.invalidArgument, s)
  | some fb =>
    if fb.modeCount ≤ modeIndex then (.invalidArgument, s)
    else if modeIndex = fb.currentMode then (.ok, s)
    else if fb.setsMode = false then (.notSupported, s)
    else if answer = .ok then (.ok, s.setFramebuffer handle (fb.switched modeIndex))
    else (answer, s)

/-! ## Drawing -/

/-- What is stored for a pixel, from an offset in the memory of the pixels on. -/
structure PixelStore where
  x : UInt32
  y : UInt32
  offset : Nat
  size : Nat
  value : UInt32
  deriving DecidableEq, Repr

def rgb565FromXrgb (color : UInt32) : UInt32 :=
  let r := (color >>> 16) &&& 0xff
  let g := (color >>> 8) &&& 0xff
  let b := color &&& 0xff
  ((r >>> 3) <<< 11) ||| ((g >>> 2) <<< 5) ||| (b >>> 3)

def framebufferPutPixel (info : FramebufferInfo) (x y color : UInt32) : List PixelStore :=
  if info.pixels = none ∨ info.width ≤ x ∨ info.height ≤ y then []
  else
    let row := y.toNat * info.strideBytes.toNat
    if info.pixelFormat = pixelFormatRgb565 then
      [{ x, y, offset := row + x.toNat * 2, size := 2, value := rgb565FromXrgb color }]
    else if info.pixelFormat = pixelFormatXrgb8888 then
      [{ x, y, offset := row + x.toNat * 4, size := 4, value := color ||| 0xff000000 }]
    else []

/-- The values of a loop variable that runs from `lo` below `hi`. -/
def upTo (lo hi : UInt32) : List UInt32 :=
  (List.range' lo.toNat (hi.toNat - lo.toNat)).map UInt32.ofNat

def framebufferFillRect (info : FramebufferInfo) (x y width height color : UInt32) :
    List PixelStore :=
  let maxX := if info.width < x + width then info.width else x + width
  let maxY := if info.height < y + height then info.height else y + height
  (upTo y maxY).flatMap fun py => (upTo x maxX).flatMap fun px =>
    framebufferPutPixel info px py color

def glyphRow (ch : UInt8) (row : UInt32) : UInt8 :=
  if ch = 32 then 0
  else
    let seed := ch ^^^ ((row + 1) * 0x2d).toUInt8
    let bits := ((seed <<< 1) ||| (seed >>> 5)) &&& 0x3e
    if row = 0 ∨ row = 6 then bits ||| 0x1e else bits

def framebufferDrawCell (info : FramebufferInfo) (cellX cellY : UInt32) (ch : UInt8)
    (foreground background : UInt32) : List PixelStore :=
  let originX := cellX * 8
  let originY := cellY * 8
  let filled := framebufferFillRect info originX originY 8 8 background
  if ch = 32 then filled
  else
    filled ++ (upTo 0 7).flatMap fun row => (upTo 0 6).flatMap fun col =>
      if glyphRow ch row &&& ((1 : UInt8) <<< (5 - col.toUInt8)) ≠ 0 then
        framebufferPutPixel info (originX + 1 + col) (originY + row) foreground
      else []

/-- The loop of `rad_framebuffer_draw_text` over the characters still to come, at cell `(x, y)`. -/
def drawChars (info : FramebufferInfo) (columns rows cellX foreground background : UInt32) :
    CString → UInt32 → UInt32 → List PixelStore
  | [], _, _ => []
  | ch :: rest, x, y =>
    if rows ≤ y then []
    else if ch = 10 then drawChars info columns rows cellX foreground background rest cellX (y + 1)
    else
      framebufferDrawCell info x y ch foreground background ++
        if columns ≤ x + 1 then
          drawChars info columns rows cellX foreground background rest cellX (y + 1)
        else drawChars info columns rows cellX foreground background rest (x + 1) y

/-- A drawing call. -/
inductive DrawCall where
  | clear (color : UInt32)
  | drawText (cellX cellY : UInt32) (text : CString) (foreground background : UInt32)

/-- `rad_framebuffer_clear`. -/
def radFramebufferClear (s : Runtime) (handle : Nat) (color : UInt32) : Status × List PixelStore :=
  match framebufferFromHandle s handle with
  | none => (.invalidArgument, [])
  | some fb => (.ok, framebufferFillRect fb.info 0 0 fb.info.width fb.info.height color)

/-- `rad_framebuffer_draw_text`. -/
def radFramebufferDrawText (s : Runtime) (handle : Nat) (cellX cellY : UInt32) (text : CString)
    (foreground background : UInt32) : Status × List PixelStore :=
  match framebufferFromHandle s handle with
  | none => (.invalidArgument, [])
  | some fb =>
    let columns := fb.info.width / 8
    let rows := fb.info.height / 8
    if columns ≤ cellX ∨ rows ≤ cellY then (.invalidArgument, [])
    else (.ok, drawChars fb.info columns rows cellX foreground background text cellX cellY)

def DrawCall.perform (s : Runtime) (handle : Nat) : DrawCall → Status × List PixelStore
  | .clear color => radFramebufferClear s handle color
  | .drawText cellX cellY text foreground background =>
    radFramebufferDrawText s handle cellX cellY text foreground background

end RadKernel.Overlay
