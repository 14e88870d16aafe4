import RadKernel.Overlay.Bus

/-!
# DMA channels

Controllers with their backends, the table of channel handles, and the transfers of SPI devices that
take two channels for a while. What a callback of a backend answers is part of the call that runs it;
a callback that is missing is a flag of the controller. A channel is a pointer to a handle, or null.
The memory that a transfer copies is left out, and so are null arguments other than channels.

What happened to the handles is kept beside the tables, the latest first.
-/

namespace RadKernel.Overlay

def maxDmaControllers : Nat := 4
def maxDmaChannels : Nat := 16
def spiAutoDmaThreshold : Nat := 64

/-! ## State -/

/-- `rad_dma_transfer_type_t`. -/
inductive DmaTransferType where
  | memoryToMemory
  | memoryToDevice
  | deviceToMemory
  deriving DecidableEq, Repr

/-- `rad_dma_request_id_t`. -/
inductive DmaRequestId where
  | none
  | spi0Tx
  | spi0Rx
  | spi1Tx
  | spi1Rx
  | rp2350HstxTx
  deriving DecidableEq, Repr

/-- `rad_dma_transfer_t`; the null address is 0. -/
structure DmaTransfer where
  type : DmaTransferType
  source : Nat := 0
  destination : Nat := 0
  deriving DecidableEq, Repr

/-- The callbacks that a backend has. -/
structure DmaBackendOps where
  request : Bool := false
  submit : Bool := false
  wait : Bool := false
  cancel : Bool := false
  deriving DecidableEq, Repr

structure DmaController where
  name : CString := []
  channelCount : Nat := 0
  ops : DmaBackendOps := {}
  used : Bool := false
  deriving DecidableEq, Repr

/-- `rad_dma_channel_handle`. -/
structure DmaChannel where
  controllerIndex : Nat := 0
  index : Nat := 0
  requestId : DmaRequestId := .none
  backendChannel : Nat := 0
  used : Bool := false
  active : Bool := false
  deriving DecidableEq, Repr

inductive DmaEvent where
  | requested
  | submitted (status : Status)
  | waited (status : Status)
  | cancelled (status : Status)
  | released
  deriving DecidableEq, Repr

structure Dma where
  controllers : Nat → DmaController := fun _ => {}
  channels : Nat → DmaChannel := fun _ => {}
  /-- What happened to the handles, with their slots. -/
  log : List (Nat × DmaEvent) := []

def Dma.setController (s : Dma) (c : Nat) (controller : DmaController) : Dma :=
  { s with controllers := Function.update s.controllers c controller }

def Dma.setChannel (s : Dma) (k : Nat) (channel : DmaChannel) : Dma :=
  { s with channels := Function.update s.channels k channel }

def Dma.setActive (s : Dma) (k : Nat) (active : Bool) : Dma :=
  s.setChannel k { s.channels k with active }

def Dma.note (s : Dma) (k : Nat) (event : DmaEvent) : Dma := { s with log := (k, event) :: s.log }

/-- What happened to the handle in a slot. -/
def Dma.eventsOf (s : Dma) (k : Nat) : List DmaEvent :=
  s.log.filterMap fun entry => if entry.1 = k then some entry.2 else none

/-! ## Controllers -/

/-- `rad_dma_controller_register`. -/
def radDmaControllerRegister (s : Dma) (name : CString) (channelCount : Nat) (ops : DmaBackendOps) :
    Status × Dma :=
  if ∃ c < maxDmaControllers, (s.controllers c).used = true ∧ (s.controllers c).name = name then
    (.alreadyExists, s)
  else
    match (List.range maxDmaControllers).find? fun c => !(s.controllers c).used with
    | none => (.noMemory, s)
    | some c =>
      (.ok, s.setController c
        { name := copyString driverNameMax name, channelCount, ops, used := true })

/-- `rad_dma_controller_unregister`. -/
def radDmaControllerUnregister (s : Dma) (name : CString) : Status × Dma :=
  match (List.range maxDmaControllers).find? fun c =>
    (s.controllers c).used ∧ (s.controllers c).name = name with
  | none => (.notFound, s)
  | some c =>
    if ∃ k < maxDmaChannels, (s.channels k).used = true ∧ (s.channels k).controllerIndex = c then
      (.invalidArgument, s)
    else (.ok, s.setController c {})

def dmaBackendAvailable (s : Dma) : Bool :=
  (List.range maxDmaControllers).any fun c =>
    (s.controllers c).used ∧ 0 < (s.controllers c).channelCount

/-! ## Channels -/

def channelInUse (s : Dma) (c index : Nat) : Bool :=
  (List.range maxDmaChannels).any fun k =>
    (s.channels k).used ∧ (s.channels k).controllerIndex = c ∧ (s.channels k).index = index

/-- The first channel of a controller that no handle denotes. -/
def freeChannel (s : Dma) (c : Nat) : Option Nat :=
  if (s.controllers c).used = false then none
  else
    (List.range (min (s.controllers c).channelCount maxDmaChannels)).find? fun index =>
      !channelInUse s c index

/-- `rad_dma_channel_request`, with the answer of the callback and the channel it gives. -/
def radDmaChannelRequest (s : Dma) (requestId : DmaRequestId) (answer : Status × Nat) :
    Status × Option Nat × Dma :=
  match (List.range maxDmaControllers).findSome? fun c => (freeChannel s c).map fun i => (c, i) with
  | none => (.notSupported, none, s)
  | some (controllerIndex, index) =>
    match (List.range maxDmaChannels).find? fun k => !(s.channels k).used with
    | none => (.noMemory, none, s)
    | some k =>
      let handle : DmaChannel := { controllerIndex, index, requestId, used := true }
      if (s.controllers controllerIndex).ops.request = false then
        (.ok, some k, (s.setChannel k handle).note k .requested)
      else if answer.1 ≠ .ok then (answer.1, none, s.setChannel k {})
      else
        (.ok, some k,
          (s.setChannel k { handle with backendChannel := answer.2 }).note k .requested)

/-- The slot of a handle that a call accepts. -/
def channelHandle (s : Dma) (channel : Option Nat) : Option Nat :=
  channel.filter fun k =>
    (s.channels k).used ∧ (s.channels k).controllerIndex < maxDmaControllers

/-- The controller of the handle in a slot. -/
def Dma.controllerOf (s : Dma) (k : Nat) : DmaController :=
  s.controllers (s.channels k).controllerIndex

/-- `rad_dma_channel_release`. -/
def radDmaChannelRelease (s : Dma) (channel : Option Nat) : Dma :=
  match channelHandle s channel with
  | none => s
  | some k => (s.setChannel k {}).note k .released

/-- A copy that `rad_dma_submit` makes itself when the backend has no callback. -/
def DmaTransfer.Copies (transfer : DmaTransfer) : Prop :=
  transfer.type = .memoryToMemory ∧ transfer.source ≠ 0 ∧ transfer.destination ≠ 0

instance (transfer : DmaTransfer) : Decidable transfer.Copies :=
  inferInstanceAs (Decidable (_ ∧ _))

/-- `rad_dma_submit`, with the answer of the callback. -/
def radDmaSubmit (s : Dma) (channel : Option Nat) (transfer : DmaTransfer) (answer : Status) :
    Status × Dma :=
  match channelHandle s channel with
  | none => (.invalidArgument, s)
  | some k =>
    if (s.controllerOf k).used = false then (.notSupported, s)
    else
      let started := s.setActive k true
      if (s.controllerOf k).ops.submit then
        (answer, (if answer ≠ .ok then started.setActive k false else started).note k
          (.submitted answer))
      else if transfer.Copies then (.ok, (started.setActive k false).note k (.submitted .ok))
      else (.notSupported, started.note k (.submitted .notSupported))

/-- `rad_dma_wait`, with the answer of the callback. -/
def radDmaWait (s : Dma) (channel : Option Nat) (answer : Status) : Status × Dma :=
  match channelHandle s channel with
  | none => (.invalidArgument, s)
  | some k =>
    if (s.controllerOf k).used = false then (.notSupported, s)
    else
      let status := if (s.controllerOf k).ops.wait then answer else .ok
      (status, (if status = .ok then s.setActive k false else s).note k (.waited status))

/-- `rad_dma_cancel`, with the answer of the callback. -/
def radDmaCancel (s : Dma) (channel : Option Nat) (answer : Status) : Status × Dma :=
  match channelHandle s channel with
  | none => (.invalidArgument, s)
  | some k =>
    if (s.controllerOf k).used = false then (.notSupported, s)
    else
      let status := if (s.controllerOf k).ops.cancel then answer else .ok
      (status, (if status = .ok then s.setActive k false else s).note k (.cancelled status))

/-- A call on a channel. -/
inductive ChannelCall where
  | release
  | submit (transfer : DmaTransfer) (answer : Status)
  | wait (answer : Status)
  | cancel (answer : Status)

def ChannelCall.perform (s : Dma) (channel : Option Nat) : ChannelCall → Dma
  | .release => radDmaChannelRelease s channel
  | .submit transfer answer => (radDmaSubmit s channel transfer answer).2
  | .wait answer => (radDmaWait s channel answer).2
  | .cancel answer => (radDmaCancel s channel answer).2

/-! ## Transfers of SPI devices -/

/-- `rad_spi_transfer_t`. -/
structure SpiTransfer where
  hasTx : Bool := false
  hasRx : Bool := false
  size : Nat := 0
  speedHz : Nat := 0
  cs : Nat := 0
  bitsPerWord : Nat := 0
  transferMode : SpiTransferMode := .auto
  deriving DecidableEq, Repr

/-- `rad_spi_controller_ops_t`. The DMA callback makes calls on the two channels it is given: a call
with `false` is one on the first of them. -/
structure SpiControllerOps where
  transfer : Option (SpiTransfer → Status) := none
  transferDma : Option (SpiTransfer → Option Nat → Option Nat → Status × List (Bool × ChannelCall)) :=
    none

def SpiTransfer.routed (transfer : SpiTransfer) (device : BusDevice) (controllerHz : Nat) :
    SpiTransfer :=
  { transfer with
    speedHz :=
      if transfer.speedHz ≠ 0 then transfer.speedHz
      else if device.settings.clockHz ≠ 0 then device.settings.clockHz
      else controllerHz
    bitsPerWord :=
      if transfer.bitsPerWord ≠ 0 then transfer.bitsPerWord
      else if device.settings.bitsPerWord ≠ 0 then device.settings.bitsPerWord
      else 8
    cs := device.unit
    transferMode :=
      if transfer.transferMode = .auto then device.settings.transferMode
      else transfer.transferMode }

def wantsDma (s : Dma) (routed : SpiTransfer) : Prop :=
  routed.transferMode = .dma ∨
    routed.transferMode = .auto ∧ routed.hasTx = true ∧ routed.hasRx = true ∧
      spiAutoDmaThreshold ≤ routed.size ∧ dmaBackendAvailable s = true

instance (s : Dma) (routed : SpiTransfer) : Decidable (wantsDma s routed) :=
  inferInstanceAs (Decidable (_ ∨ _))

def performAll (s : Dma) (tx rx : Option Nat) (calls : List (Bool × ChannelCall)) : Dma :=
  calls.foldl (fun s call => call.2.perform s (if call.1 then rx else tx)) s

/-- `rad_spi_device_transfer` of a device with a controller; the answers are those of the two
requests for channels. -/
def radSpiDeviceTransfer (s : Dma) (device : BusDevice) (controllerHz : Nat) (ops : SpiControllerOps)
    (transfer : SpiTransfer) (txAnswer rxAnswer : Status × Nat) : Status × Dma :=
  let routed := transfer.routed device controllerHz
  let onBus := (ops.transfer.map fun send => send routed).getD .notSupported
  if wantsDma s routed then
    match ops.transferDma with
    | none => if routed.transferMode = .dma then (.notSupported, s) else (onBus, s)
    | some transferDma =>
      let txId := if device.busId = 0 then DmaRequestId.spi0Tx else .spi1Tx
      let rxId := if device.busId = 0 then DmaRequestId.spi0Rx else .spi1Rx
      let (status, tx, s) := radDmaChannelRequest s txId txAnswer
      let (status, rx, s) :=
        if status = .ok then radDmaChannelRequest s rxId rxAnswer else (status, none, s)
      if status = .ok then
        let (status, calls) := transferDma routed tx rx
        let s := performAll s tx rx calls
        let s := radDmaChannelRelease (radDmaChannelRelease s tx) rx
        if status = .ok ∨ routed.transferMode = .dma then (status, s) else (onBus, s)
      else
        let s := radDmaChannelRelease (radDmaChannelRelease s tx) rx
        if routed.transferMode = .dma then (status, s) else (onBus, s)
  else (onBus, s)

/-! ## Runs -/

inductive DmaCall where
  | controllerRegister (name : CString) (channelCount : Nat) (ops : DmaBackendOps)
  | controllerUnregister (name : CString)
  | channelRequest (requestId : DmaRequestId) (answer : Status × Nat)
  | channel (channel : Option Nat) (call : ChannelCall)

def Dma.next (s : Dma) : DmaCall → Dma
  | .controllerRegister name channelCount ops =>
    (radDmaControllerRegister s name channelCount ops).2
  | .controllerUnregister name => (radDmaControllerUnregister s name).2
  | .channelRequest requestId answer => (radDmaChannelRequest s requestId answer).2.2
  | .channel channel call => call.perform s channel

end RadKernel.Overlay
