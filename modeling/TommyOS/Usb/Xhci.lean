import TommyOS.Usb.Device

/-!
# The xHCI driver

The state machine of the root hub ports in `xhci.cpp`: what the handlers of `ProcessEvent` and
`ConfigurePort` do to the phases of the ports, the devices and the command ring. The writes to
the registers of a port and to the doorbells leave no trace here.
-/

namespace TommyOS.Usb

/-! ## Ports -/

namespace PORTSC

def currentConnectStatus (portsc : BitVec 32) : Bool := portsc.getLsbD 0

def portEnabledDisabled (portsc : BitVec 32) : Bool := portsc.getLsbD 1

def portSpeed (portsc : BitVec 32) : BitVec 4 := portsc.extractLsb' 10 4

def portResetChange (portsc : BitVec 32) : Bool := portsc.getLsbD 21

end PORTSC

namespace Machine

variable (m : Machine) (port : BitVec 8)

def isConnected : Bool := PORTSC.currentConnectStatus (m.portsc port)

def isEnabled : Bool := PORTSC.portEnabledDisabled (m.portsc port)

def isPortResetChanged : Bool := PORTSC.portResetChange (m.portsc port)

def speed : BitVec 4 := PORTSC.portSpeed (m.portsc port)

end Machine

def kFullSpeed : ℕ := 1
def kLowSpeed : ℕ := 2
def kSuperSpeedPlus : ℕ := 5

/-- `ConfigPhase`, in the order in which a port goes through its phases. -/
inductive ConfigPhase where
  | kNotConnected
  | kWaitingAddressed
  | kResettingPort
  | kEnablingSlot
  | kAddressingDevice
  | kInitializingDevice
  | kConfiguringEndpoints
  | kConfigured
deriving DecidableEq, Repr

/-! ## State -/

/-- What the controller finds in the device context array. -/
inductive DeviceContextPointer where
  | scratchpad (array : BitVec 64)
  | device (slotId : BitVec 8)
deriving DecidableEq

/-- The driver: the members of `Controller` and `DeviceManager` and the variables of
`xhci.cpp`. -/
structure Controller where
  maxPorts : BitVec 8
  commandRing : LoggedRing
  devices : BitVec 8 → Option Device
  deviceContextPointers : BitVec 8 → Option DeviceContextPointer
  portConfigPhase : BitVec 8 → ConfigPhase
  addressingPort : BitVec 8

namespace Controller

/-- The number of device slots. -/
def kDeviceSize : BitVec 8 := 8#8

/-- After `Initialize`, with the buffers that were allocated. -/
def initializeWith (maxPorts : BitVec 8) (commandRing : BitVec 64)
    (scratchpad : Option (BitVec 64)) : Controller where
  maxPorts := maxPorts
  commandRing := .initializeWith commandRing 32
  devices := fun _ => none
  deviceContextPointers := fun i => if i = 0#8 then scratchpad.map .scratchpad else none
  portConfigPhase := fun _ => .kNotConnected
  addressingPort := 0#8

/-- `port_config_phase[port] = phase`. -/
def setPhase (c : Controller) (port : BitVec 8) (phase : ConfigPhase) : Controller :=
  { c with portConfigPhase := Function.update c.portConfigPhase port phase }

/-- `devices_[slotId] = d`. -/
def setDevice (c : Controller) (slotId : BitVec 8) (d : Device) : Controller :=
  { c with devices := Function.update c.devices slotId (some d) }

/-- A push to the command ring. -/
def pushCommand (c : Controller) (cmd : TRB) : Option Controller := do
  let (_, cr) ← c.commandRing.push cmd
  some { c with commandRing := cr }

/-! ## `DeviceManager` -/

/-- `FindBySlot`: a slot beyond the last one has no device. -/
def findBySlot (c : Controller) (slotId : BitVec 8) : Option Device :=
  if kDeviceSize < slotId then none else c.devices slotId

/-- `AllocDevice`. Without memory the constructor would run on a null pointer, so there is no
result. -/
def allocDevice (m : Machine) (c : Controller) (slotId : BitVec 8) :
    Option (Error × Controller) :=
  if kDeviceSize < slotId then some (.kInvalidSlotID, c)
  else if (c.devices slotId).isSome then some (.kAlreadyAllocated, c)
  else do
    let addresses ← m.newDevice
    some (.kSuccess, c.setDevice slotId (.new slotId addresses))

/-- `LoadDCBAA`, which needs the device of the slot. -/
def loadDCBAA (c : Controller) (slotId : BitVec 8) : Option (Error × Controller) :=
  if kDeviceSize < slotId then some (.kInvalidSlotID, c)
  else do
    let _ ← c.devices slotId
    some (.kSuccess,
      { c with
        deviceContextPointers :=
          Function.update c.deviceContextPointers slotId (some (.device slotId)) })

/-! ## Contexts -/

end Controller

namespace InputContext

/-- `EnableSlotContext`. -/
def enableSlotContext (ctx : InputContext) : InputContext :=
  { ctx with addContextFlags := ctx.addContextFlags ||| 1#32 }

/-- `EnableEndpoint`, when the index is that of an endpoint. -/
def enableEndpoint (ctx : InputContext) (dci : ℕ) : Option InputContext :=
  if 1 ≤ dci ∧ dci ≤ 31 then
    some { ctx with addContextFlags := ctx.addContextFlags ||| 1#32 <<< dci }
  else
    none

def setEndpoint (ctx : InputContext) (dci : ℕ) (ep : EndpointContext) : InputContext :=
  { ctx with epContexts := Function.update ctx.epContexts (dci - 1) ep }

end InputContext

/-- `DeviceContextIndex(0, false)`. -/
def ep0Dci : ℕ := 1

/-- The size is in bytes, and 8 for full and low speed. -/
def determineMaxPacketSizeForControlPipe (slotSpeed : BitVec 4) : BitVec 16 :=
  if slotSpeed = 4#4 then 512#16
  else if slotSpeed = 3#4 then 64#16
  else 8#16

/-- `SetTransferRingBuffer`. -/
def EndpointContext.setTransferRingBuffer (ep : EndpointContext) (buffer : BitVec 64) :
    EndpointContext :=
  { ep with trDequeuePointer := buffer.extractLsb' 4 60 }

/-- `InitializeEP0Context`. -/
def initializeEP0Context (ep : EndpointContext) (transferRing : LoggedRing)
    (maxPacketSize : BitVec 16) : EndpointContext :=
  { ep.setTransferRingBuffer transferRing.base with
    epType := 4#3
    maxPacketSize := maxPacketSize
    maxBurstSize := 0#8
    dequeueCycleState := 1#1
    interval := 0#8
    maxPrimaryStreams := 0#5
    mult := 0#2
    errorCount := 3#2 }

/-- `MostSignificantBit`. -/
def mostSignificantBit (value : ℕ) : ℤ := if value = 0 then -1 else Nat.log2 value

/-- `convert_interval`, for a port of some speed. -/
def convertInterval (portSpeed : ℕ) (type : EndpointType) (interval : ℕ) : ℤ :=
  if portSpeed = kFullSpeed ∨ portSpeed = kLowSpeed then
    if type = .kIsochronous then interval + 2 else mostSignificantBit interval + 3
  else
    interval - 1

/-- The endpoint type of a context. -/
def contextEpType (conf : EndpointConfig) : BitVec 3 :=
  match conf.epType with
  | .kControl => 4#3
  | .kIsochronous => if conf.epId.isIn then 5#3 else 1#3
  | .kBulk => if conf.epId.isIn then 6#3 else 2#3
  | .kInterrupt => if conf.epId.isIn then 7#3 else 3#3

/-! ## The phases of a port -/

namespace Controller

/-- `ResetPort`: while another port is being addressed, this one waits. -/
def resetPort (m : Machine) (c : Controller) (port : BitVec 8) : Error × Controller :=
  if ¬ m.isConnected port then
    (.kSuccess, c)
  else if c.addressingPort ≠ 0#8 then
    (.kSuccess, c.setPhase port .kWaitingAddressed)
  else if c.portConfigPhase port ≠ .kNotConnected ∧
      c.portConfigPhase port ≠ .kWaitingAddressed then
    (.kInvalidPhase, c)
  else
    (.kSuccess, { c with addressingPort := port }.setPhase port .kResettingPort)

/-- `EnableSlot`, if the reset has ended with an enabled port. -/
def enableSlot (m : Machine) (c : Controller) (port : BitVec 8) : Option (Error × Controller) :=
  if m.isEnabled port ∧ m.isPortResetChanged port then do
    let c ← (c.setPhase port .kEnablingSlot).pushCommand EnableSlotCommandTRB.make
    some (.kSuccess, c)
  else
    some (.kSuccess, c)

/-- The input context for a new device on a port. -/
def addressInputContext (m : Machine) (ctx : InputContext) (port : BitVec 8)
    (transferRing : LoggedRing) : Option InputContext := do
  let ctx := { ctx with addContextFlags := 0#32 }.enableSlotContext
  let ctx ← ctx.enableEndpoint ep0Dci
  let slotContext := { ctx.slotContext with
    routeString := 0#20
    rootHubPortNum := port
    contextEntries := 1#5
    speed := m.speed port }
  let ctx := { ctx with slotContext := slotContext }
  some (ctx.setEndpoint ep0Dci (initializeEP0Context (ctx.epContexts (ep0Dci - 1)) transferRing
    (determineMaxPacketSizeForControlPipe slotContext.speed)))

/-- `AddressDevice`: a device with its default control pipe, and the command. -/
def addressDevice (m : Machine) (c : Controller) (port slotId : BitVec 8) :
    Option (Error × Controller) := do
  -- the errors of `AllocDevice` and `LoadDCBAA` are ignored
  let (_, c) ← c.allocDevice m slotId
  match c.findBySlot slotId with
  | none => some (.kInvalidSlotID, c)
  | some d =>
    let (tr, d) ← d.allocTransferRing (m.newRing 0) ep0Dci 32
    let tr ← tr
    let ctx ← addressInputContext m d.inputContext port tr
    let c := c.setDevice slotId { d with inputContext := ctx }
    let (_, c) ← c.loadDCBAA slotId
    let c ← (c.setPhase port .kAddressingDevice).pushCommand
      (AddressDeviceCommandTRB.make d.inputContextAddress slotId)
    some (.kSuccess, c)

/-- `InitializeDevice`: the first request to the device. -/
def initializeDevice (c : Controller) (port slotId : BitVec 8) : Option (Error × Controller) :=
  match c.findBySlot slotId with
  | none => some (.kInvalidSlotID, c)
  | some d => do
    let (_, d) ← d.startInitialize
    some (.kSuccess, (c.setPhase port .kInitializingDevice).setDevice slotId d)

/-- `CompleteConfiguration`: the class drivers go on. -/
def completeConfiguration (c : Controller) (port slotId : BitVec 8) :
    Option (Error × Controller) :=
  match c.findBySlot slotId with
  | none => some (.kInvalidSlotID, c)
  | some d => do
    let (_, d) ← d.onEndpointsConfigured
    some (.kSuccess, (c.setDevice slotId d).setPhase port .kConfigured)

/-- The contexts and the rings of some endpoints of a device. -/
def configureEndpointContexts (m : Machine) (portSpeed : ℕ) (d : Device) : ℕ → Option Device
  | 0 => some d
  | n + 1 => do
    -- the endpoints before this one
    let d ← configureEndpointContexts m portSpeed d n
    let conf := d.epConfigs n
    let dci := conf.epId.address
    let ctx ← d.inputContext.enableEndpoint dci
    let (tr, d) ← d.allocTransferRing (m.newRing n) dci 32
    let tr ← tr
    let ep := { (ctx.epContexts (dci - 1)).setTransferRingBuffer tr.base with
      epType := contextEpType conf
      maxPacketSize := BitVec.ofNat 16 conf.maxPacketSize
      interval := BitVec.ofInt 8 (convertInterval portSpeed conf.epType conf.interval)
      averageTrbLength := 1#16
      dequeueCycleState := 1#1
      maxPrimaryStreams := 0#5
      mult := 0#2
      errorCount := 3#2 }
    some { d with inputContext := ctx.setEndpoint dci ep }

/-- `ConfigureEndpoints`: the contexts of the endpoints, and the command. -/
def configureEndpoints (m : Machine) (c : Controller) (slotId : BitVec 8) (d : Device) :
    Option (Error × Controller) := do
  let slotContext := m.slotContext slotId
  let ctx := { d.inputContext with addContextFlags := 0#32, slotContext := slotContext }
  let ctx := { ctx.enableSlotContext with
    slotContext := { slotContext with contextEntries := 31#5 } }
  let d := { d with inputContext := ctx }
  let port := slotContext.rootHubPortNum
  let portSpeed := (m.speed port).toNat
  -- a speed that the table of the source does not have
  if portSpeed = 0 ∨ kSuperSpeedPlus < portSpeed then
    some (.kUnknownXHCISpeedID, c.setDevice slotId d)
  else
    let d ← configureEndpointContexts m portSpeed d d.numEpConfigs
    let c := (c.setDevice slotId d).setPhase port .kConfiguringEndpoints
    let c ← c.pushCommand (ConfigureEndpointCommandTRB.make d.inputContextAddress d.slotId)
    some (.kSuccess, c)

/-! ## Events -/

/-- `OnEvent` of a port status change. -/
def onPortStatusChange (m : Machine) (c : Controller) (trb : TRB) : Option (Error × Controller) :=
  let port := PortStatusChangeEventTRB.portId trb
  match c.portConfigPhase port with
  | .kNotConnected => some (c.resetPort m port)
  | .kResettingPort => c.enableSlot m port
  | _ => some (.kInvalidPhase, c)

/-- `OnEvent` of a transfer. -/
def onTransfer (m : Machine) (c : Controller) (trb : TRB) : Option (Error × Controller) :=
  let slotId := TransferEventTRB.slotId trb
  match c.findBySlot slotId with
  | none => some (.kInvalidSlotID, c)
  | some d => do
    let (err, d) ← d.onTransferEventReceived m trb
    let c := c.setDevice slotId d
    if err.failed then
      some (err, c)
    else
      let port := (m.slotContext slotId).rootHubPortNum
      -- the last request of the initialization is done
      if d.isInitialized ∧ c.portConfigPhase port = .kInitializingDevice then
        c.configureEndpoints m slotId d
      else
        some (.kSuccess, c)

/-- The first port that waits for the others. -/
def firstWaiting (c : Controller) : Option (BitVec 8) :=
  ((List.range 256).map (BitVec.ofNat 8)).find? fun port =>
    decide (c.portConfigPhase port = .kWaitingAddressed)

/-- `OnEvent` of the completion of an Address Device command, for a device on a port. -/
def onAddressDeviceCompleted (m : Machine) (c : Controller) (port slotId : BitVec 8) :
    Option (Error × Controller) :=
  if port ≠ c.addressingPort then
    some (.kInvalidPhase, c)
  else if c.portConfigPhase port ≠ .kAddressingDevice then
    some (.kInvalidPhase, c)
  else
    -- the port no longer holds up the others
    let c := { c with addressingPort := 0#8 }
    match c.firstWaiting with
    | none => c.initializeDevice port slotId
    | some waiting =>
      let (err, c) := c.resetPort m waiting
      if err.failed then some (err, c) else c.initializeDevice port slotId

/-- `OnEvent` of a command completion. -/
def onCommandCompletion (m : Machine) (c : Controller) (trb : TRB) :
    Option (Error × Controller) :=
  let issuerType := (m.trbAt trb.pointer).trbType
  let slotId := CommandCompletionEventTRB.slotId trb
  if issuerType = EnableSlotCommandTRB.type then
    if c.portConfigPhase c.addressingPort ≠ .kEnablingSlot then
      some (.kInvalidPhase, c)
    else
      c.addressDevice m c.addressingPort slotId
  else if issuerType = AddressDeviceCommandTRB.type then
    match c.findBySlot slotId with
    | none => some (.kInvalidSlotID, c)
    | some _ => c.onAddressDeviceCompleted m (m.slotContext slotId).rootHubPortNum slotId
  else if issuerType = ConfigureEndpointCommandTRB.type then
    match c.findBySlot slotId with
    | none => some (.kInvalidSlotID, c)
    | some _ =>
      let port := (m.slotContext slotId).rootHubPortNum
      if c.portConfigPhase port ≠ .kConfiguringEndpoints then
        some (.kInvalidPhase, c)
      else
        c.completeConfiguration port slotId
  else
    some (.kInvalidPhase, c)

/-- The `OnEvent` that `ProcessEvent` calls for an event. -/
def onEvent (m : Machine) (c : Controller) (trb : TRB) : Option (Error × Controller) :=
  if trb.trbType = TransferEventTRB.type then c.onTransfer m trb
  else if trb.trbType = PortStatusChangeEventTRB.type then c.onPortStatusChange m trb
  else if trb.trbType = CommandCompletionEventTRB.type then c.onCommandCompletion m trb
  else some (.kNotImplemented, c)

/-- `ConfigurePort`, which `KernelMainNewStack` calls for each connected port. -/
def configurePort (m : Machine) (c : Controller) (port : BitVec 8) : Error × Controller :=
  if c.portConfigPhase port = .kNotConnected then c.resetPort m port else (.kSuccess, c)

end Controller

end TommyOS.Usb
