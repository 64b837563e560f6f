import TommyOS.Usb.ArrayMap
import TommyOS.Usb.TransferTrb

/-!
# `Device` and its class drivers

`usb::Device` with the part `xhci::Device` adds to it, and the HID drivers that call it back. A
function that would use a null pointer or an index out of range has no result. Ringing a
doorbell and logging leave no trace here, nor do the observers of the HID drivers.
-/

namespace TommyOS.Usb

/-- A ring with all that was pushed to it. The code keeps no such history. -/
structure LoggedRing extends Ring where
  pushed : List TRB

namespace LoggedRing

def initializeWith (base : BitVec 64) (bufSize : ℕ) : LoggedRing :=
  ⟨.initializeWith base bufSize, []⟩

/-- `Push`, into a buffer that was allocated. -/
def push (r : LoggedRing) (data : TRB) : Option (BitVec 64 × LoggedRing) :=
  if r.base = 0#64 then none
  else some ((r.toRing.push data).1, ⟨(r.toRing.push data).2, r.pushed ++ [data]⟩)

end LoggedRing

/-! ## Contexts -/

/-- `SlotContext`, with the fields that are written. -/
structure SlotContext where
  routeString : BitVec 20
  speed : BitVec 4
  contextEntries : BitVec 5
  rootHubPortNum : BitVec 8

/-- `EndpointContext`, with the fields that are written. -/
structure EndpointContext where
  mult : BitVec 2
  maxPrimaryStreams : BitVec 5
  interval : BitVec 8
  errorCount : BitVec 2
  epType : BitVec 3
  maxBurstSize : BitVec 8
  maxPacketSize : BitVec 16
  dequeueCycleState : BitVec 1
  trDequeuePointer : BitVec 60
  averageTrbLength : BitVec 16

/-- `epContexts i` is the context of the endpoint with the index `i + 1`. -/
structure InputContext where
  addContextFlags : BitVec 32
  slotContext : SlotContext
  epContexts : ℕ → EndpointContext

/-- The contexts of a new device. -/
def InputContext.zero : InputContext where
  addContextFlags := 0#32
  slotContext := ⟨0#20, 0#4, 0#5, 0#8⟩
  epContexts := fun _ => ⟨0#2, 0#5, 0#8, 0#2, 0#3, 0#8, 0#16, 0#1, 0#60, 0#16⟩

/-! ## The machine -/

/-- The addresses of the members of a new device that are given to the controller. -/
structure DeviceAddresses where
  inputContext : BitVec 64
  buf : BitVec 64

/-- What the code reads of the machine while it handles an event: the registers of the ports,
memory that the controller writes too, and the answers of the allocator. A loop that does not
end within `fuel` rounds has no result. -/
structure Machine where
  portsc : BitVec 8 → BitVec 32
  trbAt : BitVec 64 → TRB
  byteAt : BitVec 64 → BitVec 8
  slotContext : BitVec 8 → SlotContext
  newDevice : Option DeviceAddresses
  newRing : ℕ → Option (BitVec 64)
  newDriver : Option (BitVec 64)
  fuel : ℕ

/-! ## State -/

/-- `HIDBaseDriver`; its `buf_` is at `bufAddress`. -/
structure HIDBaseDriver where
  epInterruptIn : EndpointID
  epInterruptOut : EndpointID
  interfaceIndex : BitVec 8
  inPacketSize : ℕ
  initializePhase : ℕ
  bufAddress : BitVec 64
  previousBuf : ℕ → BitVec 8

/-- A device: `classDrivers` and `eventWaiters` refer to its `drivers` by their place. -/
structure Device where
  slotId : BitVec 8
  inputContextAddress : BitVec 64
  bufAddress : BitVec 64
  inputContext : InputContext
  drivers : List HIDBaseDriver
  classDrivers : ℕ → Option ℕ
  numConfigurations : BitVec 8
  configIndex : BitVec 8
  isInitialized : Bool
  initializePhase : ℕ
  epConfigs : ℕ → EndpointConfig
  numEpConfigs : ℕ
  eventWaiters : ArrayMap SetupData ℕ
  transferRings : ℕ → Option LoggedRing
  setupStageMap : ArrayMap (BitVec 64) (BitVec 64)

namespace Device

/-- The constructor. -/
def new (slotId : BitVec 8) (addresses : DeviceAddresses) : Device where
  slotId := slotId
  inputContextAddress := addresses.inputContext
  bufAddress := addresses.buf
  inputContext := .zero
  drivers := []
  classDrivers := fun _ => none
  numConfigurations := 0#8
  configIndex := 0#8
  isInitialized := false
  initializePhase := 0
  epConfigs := fun _ => ⟨⟨0⟩, .kControl, 0, 0⟩
  numEpConfigs := 0
  eventWaiters := .empty 4
  transferRings := fun _ => none
  setupStageMap := .empty 16

/-- `buf_.size()`. -/
def bufSize : ℕ := 256

/-! ## Transfers -/

/-- `transfer_rings_` at the index of an endpoint. -/
def transferRing (d : Device) (dci : ℕ) : Option (Option LoggedRing) :=
  if 1 ≤ dci ∧ dci ≤ 31 then some (d.transferRings (dci - 1)) else none

def setTransferRing (d : Device) (dci : ℕ) (tr : Option LoggedRing) : Device :=
  { d with transferRings := Function.update d.transferRings (dci - 1) tr }

/-- `AllocTransferRing`, for the ring the allocator answers with. -/
def allocTransferRing (d : Device) (newRing : Option (BitVec 64)) (dci bufSize : ℕ) :
    Option (Option LoggedRing × Device) :=
  if 1 ≤ dci ∧ dci ≤ 31 then
    let tr := newRing.map fun base => LoggedRing.initializeWith base bufSize
    some (tr, d.setTransferRing dci tr)
  else
    none

/-- What `usb::Device` does for a control transfer: the issuer waits for it. -/
def putWaiter (d : Device) (setupData : SetupData) (issuer : Option ℕ) : Device :=
  match issuer with
  | some w => { d with eventWaiters := d.eventWaiters.put setupData w }
  | none => d

/-- The TRBs of a control transfer, and the places of the one that completes it and of its
setup stage. -/
def pushStages (tr : LoggedRing) (dirIn : Bool) (setupData : SetupData) (buf : BitVec 64)
    (len : ℕ) : Option (BitVec 64 × BitVec 64 × LoggedRing) :=
  if buf ≠ 0#64 then do
    let transferType :=
      if dirIn then SetupStageTRB.kInDataStage else SetupStageTRB.kOutDataStage
    let (setupTrbPosition, tr) ← tr.push (SetupStageTRB.make setupData transferType)
    let (dataTrbPosition, tr) ← tr.push (DataStageTRB.make buf len dirIn)
    let (_, tr) ← tr.push (StatusStageTRB.make (!dirIn) false)
    some (dataTrbPosition, setupTrbPosition, tr)
  else do
    let (setupTrbPosition, tr) ←
      tr.push (SetupStageTRB.make setupData SetupStageTRB.kNoDataStage)
    -- without data the status stage completes the transfer
    let (statusTrbPosition, tr) ← tr.push (StatusStageTRB.make true true)
    some (statusTrbPosition, setupTrbPosition, tr)

/-- `ControlIn` and `ControlOut`. -/
def controlTransfer (dirIn : Bool) (d : Device) (epId : EndpointID) (setupData : SetupData)
    (buf : BitVec 64) (len : ℕ) (issuer : Option ℕ) : Option (Error × Device) := do
  -- the issuer waits even when the request is refused
  let d := d.putWaiter setupData issuer
  if 15 < epId.number then
    some (.kInvalidEndpointNumber, d)
  else
    match ← d.transferRing epId.address with
    | none => some (.kTransferRingNotSet, d)
    | some tr =>
      let (completed, setupTrbPosition, tr) ← pushStages tr dirIn setupData buf len
      some (.kSuccess,
        { d.setTransferRing epId.address (some tr) with
          setupStageMap := d.setupStageMap.put completed setupTrbPosition })

/-- `ControlIn`, of both classes. -/
def controlIn : Device → EndpointID → SetupData → BitVec 64 → ℕ → Option ℕ →
    Option (Error × Device) := controlTransfer true

/-- `ControlOut`, of both classes. -/
def controlOut : Device → EndpointID → SetupData → BitVec 64 → ℕ → Option ℕ →
    Option (Error × Device) := controlTransfer false

/-- `InterruptIn`: one Normal TRB for the buffer. -/
def interruptIn (d : Device) (epId : EndpointID) (buf : BitVec 64) (len : ℕ) :
    Option (Error × Device) := do
  match ← d.transferRing epId.address with
  | none => some (.kTransferRingNotSet, d)
  | some tr =>
    let (_, tr) ← tr.push (NormalTRB.make buf len)
    some (.kSuccess, d.setTransferRing epId.address (some tr))

/-! ## HID drivers -/

end Device

namespace HIDBaseDriver

/-- The constructor. -/
def new (bufAddress : BitVec 64) (interfaceIndex : BitVec 8) (inPacketSize : ℕ) :
    HIDBaseDriver where
  epInterruptIn := ⟨0⟩
  epInterruptOut := ⟨0⟩
  interfaceIndex := interfaceIndex
  inPacketSize := inPacketSize
  initializePhase := 0
  bufAddress := bufAddress
  previousBuf := fun _ => 0#8

def kBufferSize : ℕ := 1024

def setEndpoint (w : HIDBaseDriver) (config : EndpointConfig) : HIDBaseDriver :=
  if config.epType = .kInterrupt then
    if config.epId.isIn then { w with epInterruptIn := config.epId }
    else { w with epInterruptOut := config.epId }
  else
    w

end HIDBaseDriver

namespace Device

/-- The driver at a place changes. -/
def setDriver (d : Device) (i : ℕ) (w : HIDBaseDriver) : Device :=
  { d with drivers := d.drivers.set i w }

/-- `HIDBaseDriver::OnEndpointsConfigured`. -/
def driverOnEndpointsConfigured (d : Device) (i : ℕ) : Option (Error × Device) := do
  let w ← d.drivers[i]?
  let d := d.setDriver i { w with initializePhase := 1 }
  d.controlOut kDefaultControlPipeID (.setProtocol w.interfaceIndex) 0#64 0 (some i)

/-- `HIDBaseDriver::OnControlCompleted`. -/
def driverOnControlCompleted (d : Device) (i : ℕ) : Option (Error × Device) := do
  let w ← d.drivers[i]?
  if w.initializePhase = 1 then
    let d := d.setDriver i { w with initializePhase := 2 }
    d.interruptIn w.epInterruptIn w.bufAddress w.inPacketSize
  else
    some (.kNotImplemented, d)

/-- `HIDBaseDriver::OnInterruptCompleted`. -/
def driverOnInterruptCompleted (m : Machine) (d : Device) (i : ℕ) (epId : EndpointID) (len : ℤ) :
    Option (Error × Device) := do
  let w ← d.drivers[i]?
  if epId.isIn then
    if len ≤ HIDBaseDriver.kBufferSize then
      -- `memcpy` into `previous_buf_`
      let previousBuf := fun k : ℕ =>
        if (k : ℤ) < len then m.byteAt (w.bufAddress + BitVec.ofNat 64 k) else w.previousBuf k
      let d := d.setDriver i { w with previousBuf := previousBuf }
      d.interruptIn w.epInterruptIn w.bufAddress w.inPacketSize
    else
      -- it would run past the end of `previous_buf_`
      none
  else
    some (.kNotImplemented, d)

/-! ## Initialization -/

/-- `GetDescriptor`. -/
def getDescriptor (d : Device) (epId : EndpointID) (descType descIndex : BitVec 8)
    (buf : BitVec 64) (len : ℕ) : Option (Error × Device) :=
  d.controlIn epId (.getDescriptor descType descIndex len) buf len none

/-- `SetConfiguration`. -/
def setConfiguration (d : Device) (epId : EndpointID) (configValue : BitVec 8) :
    Option (Error × Device) :=
  d.controlOut epId (.setConfiguration configValue) 0#64 0 none

end Device

namespace descriptor

/-- `kType` of the descriptors. -/
def kDevice : BitVec 8 := 1#8
def kConfiguration : BitVec 8 := 2#8
def kInterface : BitVec 8 := 4#8
def kEndpoint : BitVec 8 := 5#8

end descriptor

namespace Device

/-- `StartInitialize`: the device descriptor is asked for. -/
def startInitialize (d : Device) : Option (Error × Device) :=
  let d := { d with isInitialized := false, initializePhase := 1 }
  d.getDescriptor kDefaultControlPipeID descriptor.kDevice 0#8 d.bufAddress bufSize

/-- `buf` is the buffer of the descriptor, byte by byte. -/
def initializePhase1 (d : Device) (buf : ℕ → BitVec 8) : Option (Error × Device) :=
  let d := { d with numConfigurations := buf 17, configIndex := 0#8, initializePhase := 2 }
  d.getDescriptor kDefaultControlPipeID descriptor.kConfiguration d.configIndex d.bufAddress
    bufSize

end Device

/-! ## `ConfigurationDescriptorReader` -/

namespace ConfigurationDescriptorReader

/-- `Next` from the place `p`: the next place, and whether it is in the buffer. -/
def next (buf : ℕ → BitVec 8) (len : ℤ) (p : ℕ) : ℕ × Bool :=
  let p := p + (buf p).toNat
  (p, (p : ℤ) < len)

/-- `Next<T>`: the place of the next descriptor of a type. -/
def nextOfType (buf : ℕ → BitVec 8) (len : ℤ) (type : BitVec 8) : ℕ → ℕ → Option (Option ℕ)
  | 0, _ => none
  | fuel + 1, p =>
    let (p, inside) := next buf len p
    if inside then
      if buf (p + 1) = type then some (some p) else nextOfType buf len type fuel p
    else
      some none

end ConfigurationDescriptorReader

/-- `MakeEPConfig`, of the endpoint descriptor at a place. -/
def makeEPConfig (buf : ℕ → BitVec 8) (p : ℕ) : EndpointConfig where
  epId := .ofNumber ((buf (p + 2)).extractLsb' 0 4).toNat ((buf (p + 2)).getLsbD 7)
  epType := .ofBits ((buf (p + 3)).extractLsb' 0 2)
  maxPacketSize := (buf (p + 5) ++ buf (p + 4)).toNat
  interval := (buf (p + 6)).toNat

/-- The packet size of the driver `NewClassDriver` makes for the interface descriptor at a
place, if there is a driver for it. -/
def classDriverPacketSize (buf : ℕ → BitVec 8) (p : ℕ) : Option ℕ :=
  if buf (p + 5) = 3#8 ∧ buf (p + 6) = 1#8 then
    if buf (p + 7) = 1#8 then some 8  -- keyboard
    else if buf (p + 7) = 2#8 then some 3  -- mouse
    else none
  else
    none

namespace Device

/-- `NewClassDriver`: the place of the new driver. -/
def newClassDriver (m : Machine) (d : Device) (buf : ℕ → BitVec 8) (p : ℕ) :
    Option (Option ℕ × Device) :=
  match classDriverPacketSize buf p with
  | none => some (none, d)
  | some size => do
    let address ← m.newDriver
    some (some d.drivers.length,
      { d with drivers := d.drivers ++ [.new address (buf (p + 2)) size] })

/-- The endpoints of an interface with a driver. -/
def readEndpoints (buf : ℕ → BitVec 8) (len : ℤ) (driver numEndpoints : ℕ) :
    ℕ → ℕ → Device → Option Device
  | 0, _, _ => none
  | fuel + 1, p, d =>
    if d.numEpConfigs < numEndpoints then
      let (p, inside) := ConfigurationDescriptorReader.next buf len p
      -- `Next` returns null at the end, and the source reads through it
      if inside then
        if buf (p + 1) = descriptor.kEndpoint then
          -- `ep_configs_` has 16 entries
          if d.numEpConfigs < 16 then
            let conf := makeEPConfig buf p
            readEndpoints buf len driver numEndpoints fuel p
              { d with
                epConfigs := Function.update d.epConfigs d.numEpConfigs conf
                numEpConfigs := d.numEpConfigs + 1
                classDrivers := Function.update d.classDrivers conf.epId.number (some driver) }
          else
            none
        else
          readEndpoints buf len driver numEndpoints fuel p d
      else
        none
    else
      some d

/-- The interfaces up to the first one with a driver. -/
def readInterfaces (m : Machine) (buf : ℕ → BitVec 8) (len : ℤ) :
    ℕ → ℕ → Device → Option (Option ℕ × Device)
  | 0, _, _ => none
  | fuel + 1, p, d => do
    match ← ConfigurationDescriptorReader.nextOfType buf len descriptor.kInterface m.fuel p with
    | none => some (none, d)
    | some p =>
      match ← d.newClassDriver m buf p with
      | (none, d) => readInterfaces m buf len fuel p d
      | (some driver, d) =>
        let d ← readEndpoints buf len driver (buf (p + 4)).toNat m.fuel p
          { d with numEpConfigs := 0 }
        some (some driver, d)

/-- The configuration descriptor has come: a class driver is chosen, and the configuration set. -/
def initializePhase2 (m : Machine) (d : Device) (buf : ℕ → BitVec 8) (len : ℤ) :
    Option (Error × Device) :=
  if buf 1 ≠ descriptor.kConfiguration then
    some (.kInvalidDescriptor, d)
  else do
    match ← readInterfaces m buf len m.fuel 0 d with
    | (none, d) => some (.kSuccess, d)
    | (some _, d) =>
      let d := { d with initializePhase := 3 }
      d.setConfiguration kDefaultControlPipeID (buf 5)

/-- The endpoints are given to their drivers. -/
def setEndpoints (d : Device) : ℕ → Option Device
  | 0 => some d
  | n + 1 => do
    let d ← d.setEndpoints n
    let i ← d.classDrivers (d.epConfigs n).epId.number
    let w ← d.drivers[i]?
    some (d.setDriver i (w.setEndpoint (d.epConfigs n)))

/-- The configuration is set: the class driver gets its endpoints. -/
def initializePhase3 (d : Device) : Option (Error × Device) := do
  let d ← d.setEndpoints d.numEpConfigs
  some (.kSuccess, { d with initializePhase := 4, isInitialized := true })

/-- The loop of `OnEndpointsConfigured` over some endpoint numbers. -/
def onEndpointsConfiguredFrom (d : Device) : List ℕ → Option (Error × Device)
  | [] => some (.kSuccess, d)
  | n :: rest =>
    match d.classDrivers n with
    | none => d.onEndpointsConfiguredFrom rest
    | some i => do
      let (err, d) ← d.driverOnEndpointsConfigured i
      if err.failed then some (err, d) else d.onEndpointsConfiguredFrom rest

/-- The class drivers go on, each of them once for its endpoint number. -/
def onEndpointsConfigured (d : Device) : Option (Error × Device) :=
  d.onEndpointsConfiguredFrom (List.range 16)

/-! ## Completions -/

/-- The bytes at an address, which is not null when they are read. -/
def bytesAt (m : Machine) (buf : BitVec 64) : Option (ℕ → BitVec 8) :=
  if buf = 0#64 then none else some fun i => m.byteAt (buf + BitVec.ofNat 64 i)

/-- `OnControlCompleted`. -/
def onControlCompleted (m : Machine) (d : Device) (setupData : SetupData) (buf : BitVec 64)
    (len : ℤ) : Option (Error × Device) :=
  if d.isInitialized then
    -- a request of the class driver
    match d.eventWaiters.get setupData with
    | some w => d.driverOnControlCompleted w
    | none => some (.kNoWaiter, d)
  else if d.initializePhase = 1 then
    if setupData.request = request.kGetDescriptor then do
      let buf8 ← bytesAt m buf
      if buf8 1 = descriptor.kDevice then d.initializePhase1 buf8 else some (.kInvalidPhase, d)
    else
      some (.kInvalidPhase, d)
  else if d.initializePhase = 2 then
    if setupData.request = request.kGetDescriptor then do
      let buf8 ← bytesAt m buf
      if buf8 1 = descriptor.kConfiguration then d.initializePhase2 m buf8 len
      else some (.kInvalidPhase, d)
    else
      some (.kInvalidPhase, d)
  else if d.initializePhase = 3 then
    if setupData.request = request.kSetConfiguration then d.initializePhase3
    else some (.kInvalidPhase, d)
  else
    some (.kNotImplemented, d)

/-- `OnInterruptCompleted`. -/
def onInterruptCompleted (m : Machine) (d : Device) (epId : EndpointID) (len : ℤ) :
    Option (Error × Device) :=
  match d.classDrivers epId.number with
  | some w => d.driverOnInterruptCompleted m w epId len
  | none => some (.kNoWaiter, d)

/-- What an event comes to: an error, or the call of a handler. -/
inductive Dispatch where
  | error (err : Error)
  | onInterruptCompleted (epId : EndpointID) (len : ℤ)
  | onControlCompleted (setupData : SetupData) (buf : BitVec 64) (len : ℤ)

/-- `OnTransferEventReceived` up to the call of a handler. The event is logged there with the name
of its completion code, out of a table with names for the codes up to 36; what is read behind the
table for a greater code is left out. -/
def dispatch (m : Machine) (d : Device) (trb : TRB) : Dispatch × Device :=
  let code := TransferEventTRB.completionCode trb
  -- success or a short packet
  if code ≠ 1#8 ∧ code ≠ 13#8 then
    (.error .kTransferFailed, d)
  else
    let issuer := TransferEventTRB.pointer trb
    let issuerTrb := m.trbAt issuer
    let len := TransferEventTRB.transferLength trb issuerTrb
    if issuerTrb.trbType = NormalTRB.type then
      (.onInterruptCompleted (TransferEventTRB.endpointID trb) len, d)
    else
      match d.setupStageMap.get issuer with
      | none => (.error .kNoCorrespondingSetupStage, d)
      | some setupStage =>
        -- the entry is used up, also when the handler fails
        let d := { d with setupStageMap := d.setupStageMap.delete issuer }
        let setupData := SetupStageTRB.setupData (m.trbAt setupStage)
        if issuerTrb.trbType = DataStageTRB.type then
          (.onControlCompleted setupData issuerTrb.parameter len, d)
        else if issuerTrb.trbType = StatusStageTRB.type then
          (.onControlCompleted setupData 0#64 0, d)
        else
          (.error .kNotImplemented, d)

/-- The call of the handler. -/
def handle (m : Machine) : Dispatch × Device → Option (Error × Device)
  | (.error err, d) => some (err, d)
  | (.onInterruptCompleted epId len, d) => d.onInterruptCompleted m epId len
  | (.onControlCompleted setupData buf len, d) => d.onControlCompleted m setupData buf len

/-- `OnTransferEventReceived`. -/
def onTransferEventReceived (m : Machine) (d : Device) (trb : TRB) : Option (Error × Device) :=
  handle m (dispatch m d trb)

end Device

end TommyOS.Usb
