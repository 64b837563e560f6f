import TommyOS.Lib.BitField
import TommyOS.Lib.DeviceProgram
import TommyOS.Usb.PointerFields
import TommyOS.Usb.PoolUsage

/-!
# Starting the host controller

`RequestHCOwnership`, `Controller::Initialize` and `Controller::Run` as programs over the registers
of the controller. The firmware may own the controller at first, and the controller works beside
the driver: it halts, resets and starts in its own time.
-/

namespace TommyOS.Usb

/-! ## Registers -/

/-- The registers that the start uses. `extended i` is the word at `mmio_base + 4 * i`; it is only
used for the list of the extended capabilities. -/
structure HostRegisters where
  extended : ℕ → BitVec 32
  usbcmd : BitVec 32
  usbsts : BitVec 32
  crcr : BitVec 64
  dcbaap : BitVec 64
  config : BitVec 32
  iman : BitVec 32
  interrupter : InterrupterRegisterSet

/-- The capability registers that the start reads. The controller does not change them. -/
structure CapabilityRegisters where
  hcsparams2 : BitVec 32
  hccparams1 : BitVec 32

def CapabilityRegisters.xhciExtendedCapabilitiesPointer (cap : CapabilityRegisters) : BitVec 16 :=
  BitField.get cap.hccparams1 16 16

namespace HostRegisters

variable (r : HostRegisters)

/-- `USBCMD`: the controller is run. -/
def runStop : Bool := r.usbcmd.getLsbD 0

/-- `USBCMD`: a reset was asked for and has not ended. -/
def hostControllerReset : Bool := r.usbcmd.getLsbD 1

/-- `USBSTS`: the controller is halted. -/
def hostControllerHalted : Bool := r.usbsts.getLsbD 0

/-- `USBSTS`: the registers may not be written yet. -/
def controllerNotReady : Bool := r.usbsts.getLsbD 11

/-- A write of a word of the extended capabilities. -/
def setExtended (p : ℕ) (v : BitVec 32) : HostRegisters :=
  { r with extended := Function.update r.extended p v }

@[simp] theorem extended_setExtended_self (p : ℕ) (v : BitVec 32) :
    (r.setExtended p v).extended p = v := Function.update_self ..

theorem extended_setExtended_of_ne {p q : ℕ} (v : BitVec 32) (h : q ≠ p) :
    (r.setExtended p v).extended q = r.extended q := Function.update_of_ne h ..

/-- A write of `IMAN`: `interrupt_pending` is cleared by writing a one. -/
def writeIman (v : BitVec 32) : HostRegisters :=
  { r with iman := BitField.set v 0 (BitField.get r.iman 0 1 &&& ~~~(BitField.get v 0 1)) }

end HostRegisters

/-! ## The extended capabilities -/

namespace ExtendedRegister

def capabilityId (v : BitVec 32) : BitVec 8 := BitField.get v 0 8

def nextPointer (v : BitVec 32) : BitVec 8 := BitField.get v 8 8

end ExtendedRegister

namespace USBLEGSUP

def hcBiosOwnedSemaphore (v : BitVec 32) : Bool := v.getLsbD 16

def hcOsOwnedSemaphore (v : BitVec 32) : Bool := v.getLsbD 24

def setHcOsOwnedSemaphore (v : BitVec 32) : BitVec 32 := BitField.set v 24 1#1

end USBLEGSUP

/-- `AddOrNull`, for pointers in words from `mmio_base` on. -/
def addOrNull (p d : ℕ) : Option ℕ := if d = 0 then none else some (p + d)

/-- `std::find_if` with the predicate of `RequestHCOwnership`. A list that has more than `fuel`
elements is never left. -/
def findLegacySupport : ℕ → Option ℕ → DeviceProgram HostRegisters (Option ℕ)
  | _, none => pure none
  | 0, some _ => do
    DeviceProgram.wait fun _ => false
    pure none
  | fuel + 1, some p => do
    let id ← DeviceProgram.read fun r => ExtendedRegister.capabilityId (r.extended p)
    if id = 1#8 then
      pure (some p)
    else
      let next ← DeviceProgram.read fun r => ExtendedRegister.nextPointer (r.extended p)
      findLegacySupport fuel (addOrNull p next.toNat)

/-- The firmware has let the controller go. -/
def ownedByOs (p : ℕ) (r : HostRegisters) : Bool :=
  !USBLEGSUP.hcBiosOwnedSemaphore (r.extended p) && USBLEGSUP.hcOsOwnedSemaphore (r.extended p)

/-- `RequestHCOwnership`, from the register it has found on. -/
def takeOwnership : Option ℕ → DeviceProgram HostRegisters PUnit
  | none => pure ⟨⟩
  | some p => do
    let r ← DeviceProgram.read fun r => r.extended p
    if USBLEGSUP.hcOsOwnedSemaphore r then
      pure ⟨⟩
    else
      DeviceProgram.write fun s => s.setExtended p (USBLEGSUP.setHcOsOwnedSemaphore r)
      DeviceProgram.wait (ownedByOs p)

/-- `RequestHCOwnership`: nothing is done where there is no legacy support or the system owns the
controller already. -/
def requestHCOwnership (fuel : ℕ) (cap : CapabilityRegisters) :
    DeviceProgram HostRegisters PUnit := do
  let extUsblegsup ← findLegacySupport fuel (addOrNull 0 cap.xhciExtendedCapabilitiesPointer.toNat)
  takeOwnership extUsblegsup

/-! ## `Controller::Initialize` -/

/-- The buffers that the controller is told of. -/
structure HostMemory where
  deviceContexts : BitVec 64
  commandRing : BitVec 64
  eventRing : BitVec 64
  segmentTable : BitVec 64

/-- The wait for the controller to halt. -/
def halted (r : HostRegisters) : Bool := r.hostControllerHalted

/-- The wait for the end of the reset. -/
def resetDone (r : HostRegisters) : Bool := !r.hostControllerReset

/-- The wait for the registers. -/
def controllerReady (r : HostRegisters) : Bool := !r.controllerNotReady

/-- The wait for the controller to run. -/
def started (r : HostRegisters) : Bool := !r.hostControllerHalted

/-- The command that halts the controller: no interrupts, and a controller that runs is stopped. -/
def haltCommand (usbcmd : BitVec 32) (hostControllerHalted : Bool) : BitVec 32 :=
  let usbcmd := BitField.set usbcmd 2 0#1
  let usbcmd := BitField.set usbcmd 3 0#1
  let usbcmd := BitField.set usbcmd 10 0#1
  if hostControllerHalted then usbcmd else BitField.set usbcmd 0 0#1

/-- The controller is halted, which it must be before it is reset. -/
def haltController : DeviceProgram HostRegisters PUnit := do
  let usbcmd ← DeviceProgram.read (·.usbcmd)
  let hostControllerHalted ← DeviceProgram.read (·.hostControllerHalted)
  DeviceProgram.write fun r => { r with usbcmd := haltCommand usbcmd hostControllerHalted }
  DeviceProgram.wait halted

/-- The reset, with its two waits. -/
def resetController : DeviceProgram HostRegisters PUnit := do
  let usbcmd ← DeviceProgram.read (·.usbcmd)
  DeviceProgram.write fun r => { r with usbcmd := BitField.set usbcmd 1 1#1 }
  DeviceProgram.wait resetDone
  DeviceProgram.wait controllerReady

/-- `CONFIG`. -/
def setMaxSlotsEnabled : DeviceProgram HostRegisters PUnit := do
  let config ← DeviceProgram.read (·.config)
  DeviceProgram.write fun r => { r with config := BitField.set config 0 Controller.kDeviceSize }

/-- `DCBAAP`. -/
def registerDeviceContexts (deviceContexts : BitVec 64) : DeviceProgram HostRegisters PUnit :=
  DeviceProgram.write fun r =>
    { r with
      dcbaap :=
        DCBAAP_Bitmap.deviceContextBaseAddressArrayPointer.setPointer 0#64 deviceContexts }

/-- `RegisterCommandRing`. -/
def registerCommandRing (buffer : BitVec 64) : DeviceProgram HostRegisters PUnit := do
  let value ← DeviceProgram.read (·.crcr)
  let value := BitField.set value 0 1#1
  let value := BitField.set value 1 0#1
  let value := BitField.set value 2 0#1
  DeviceProgram.write fun r =>
    { r with crcr := CRCR_Bitmap.commandRingPointer.setPointer value buffer }

/-- The registers that `EventRing::Initialize` writes. -/
def registerEventRing (buf erst : BitVec 64) : DeviceProgram HostRegisters PUnit := do
  let erstsz ← DeviceProgram.read (·.interrupter.erstsz)
  DeviceProgram.write fun r =>
    { r with interrupter := { r.interrupter with erstsz := ERSTSZ.setSize erstsz 1#16 } }
  let erdp ← DeviceProgram.read (·.interrupter.erdp)
  DeviceProgram.write fun r =>
    { r with interrupter := { r.interrupter with erdp := ERDP.setPointer erdp buf } }
  let erstba ← DeviceProgram.read (·.interrupter.erstba)
  DeviceProgram.write fun r =>
    { r with interrupter := { r.interrupter with erstba := ERSTBA.setPointer erstba erst } }

/-- `IMAN`, then the interrupts of the controller. -/
def enableInterrupter : DeviceProgram HostRegisters PUnit := do
  let iman ← DeviceProgram.read (·.iman)
  let iman := BitField.set iman 0 1#1
  let iman := BitField.set iman 1 1#1
  DeviceProgram.write fun r => r.writeIman iman
  let usbcmd ← DeviceProgram.read (·.usbcmd)
  DeviceProgram.write fun r => { r with usbcmd := BitField.set usbcmd 2 1#1 }

/-- The end of `Controller::Initialize`, with the rings that were allocated. -/
def enableWith (memory : HostMemory) : DeviceProgram HostRegisters Error := do
  registerEventRing memory.eventRing memory.segmentTable
  enableInterrupter
  pure .kSuccess

/-- `EventRing::Initialize` and what follows it. -/
def initializeEventRing (s : PoolLog) (deviceContexts commandRing : BitVec 64) :
    DeviceProgram HostRegisters Error :=
  let buf := s.allocArray (BitVec.ofNat 64 sizeofTRB) 32#64 64#32 0x10000#32
  let erst := (buf.2.use buf.1).allocArray sizeofEventRingSegmentTableEntry 1#64 64#32 0x10000#32
  if buf.1 = nullptr then pure .kNoEnoughMemory
  else if erst.1 = nullptr then pure .kNoEnoughMemory
  else enableWith ⟨deviceContexts, commandRing, buf.1, erst.1⟩

/-- `Controller::Initialize` after the reset: the memory is taken from the pool, and the controller
is told of it. -/
def setUpController (s : PoolLog) (cap : CapabilityRegisters) (deviceContexts : BitVec 64) :
    DeviceProgram HostRegisters Error := do
  setMaxSlotsEnabled
  let s := (s.scratchpad (PoolLog.maxScratchpadBuffers cap.hcsparams2)).use deviceContexts
  registerDeviceContexts deviceContexts
  let cr := s.ringInitialize 32#64
  if cr.1.failed then
    pure cr.1
  else
    registerCommandRing cr.2.1
    initializeEventRing (cr.2.2.use cr.2.1) deviceContexts cr.2.1

/-- `Controller::Initialize`. -/
def initializeController (fuel : ℕ) (s : PoolLog) (cap : CapabilityRegisters) :
    DeviceProgram HostRegisters Error :=
  let devmgr := s.devmgrInitialize (Controller.kDeviceSize.setWidth 64)
  if devmgr.1.failed then
    pure devmgr.1
  else do
    requestHCOwnership fuel cap
    haltController
    resetController
    setUpController devmgr.2.2 cap devmgr.2.1

/-- `Controller::Run`. -/
def runController : DeviceProgram HostRegisters Error := do
  let usbcmd ← DeviceProgram.read (·.usbcmd)
  DeviceProgram.write fun r => { r with usbcmd := BitField.set usbcmd 0 1#1 }
  let _ ← DeviceProgram.read (·.usbcmd)
  DeviceProgram.wait started
  pure .kSuccess

/-- `KernelMainNewStack` logs the error of `Initialize` and runs the controller in any case. -/
def startController (fuel : ℕ) (s : PoolLog) (cap : CapabilityRegisters) :
    DeviceProgram HostRegisters Error := do
  let err ← initializeController fuel s cap
  let _ ← runController
  pure err

end TommyOS.Usb
