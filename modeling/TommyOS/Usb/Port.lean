import TommyOS.Lib.BitField
import TommyOS.Lib.ControlRegister
import TommyOS.Lib.DeviceProgram
import TommyOS.Usb.Xhci

/-!
# The register of a port

The accesses of `Port` to `PORTSC`, and those of `ResetPort` and `EnableSlot` to the port that is
brought up, as programs beside the controller. The controller may change the register between a
read and the write that follows it.
-/

namespace TommyOS.Usb

open DeviceProgram

namespace PORTSC

def portReset (portsc : BitVec 32) : Bool := portsc.getLsbD 4

def portLinkStateWriteStrobe (portsc : BitVec 32) : Bool := portsc.getLsbD 16

/-- Port power, the indicator control and the wake enables are controls; a reset and a warm reset
are requests. A one clears a change, and it disables an enabled port. -/
def bits : ControlRegister 32 where
  controls := 0x0e00c200#32
  requests := 0x80000010#32
  events := 0x00fe0002#32
  controls_requests := by decide
  controls_events := by decide

/-- A write to the register. The link state is written only with its strobe. -/
def write (old new : BitVec 32) : BitVec 32 :=
  if portLinkStateWriteStrobe new then
    BitField.set (bits.write old new) 5 (BitField.get new 5 4)
  else
    bits.write old new

end PORTSC

/-- A port: the register, and how often the controller has posted an event for it and has found
another change than the end of a reset. -/
structure PortRegister where
  portsc : BitVec 32
  events : ℕ
  faults : ℕ

namespace Port

def isConnected : DeviceProgram PortRegister Bool :=
  read fun r => PORTSC.currentConnectStatus r.portsc

def isEnabled : DeviceProgram PortRegister Bool :=
  read fun r => PORTSC.portEnabledDisabled r.portsc

def isPortResetChanged : DeviceProgram PortRegister Bool :=
  read fun r => PORTSC.portResetChange r.portsc

def writePortsc (new : BitVec 32) : DeviceProgram PortRegister PUnit :=
  write fun r => { r with portsc := PORTSC.write r.portsc new }

def resetDone (r : PortRegister) : Bool := !PORTSC.portReset r.portsc

/-- `Port::Reset`. -/
def reset : DeviceProgram PortRegister PUnit := do
  let portsc ← read PortRegister.portsc
  writePortsc ((portsc &&& 0x0e00c3e0#32) ||| 0x00020010#32)
  wait resetDone

/-- `CLEAR_STATUS_BIT`, with the position of the bit. -/
def clearStatusBit (bit : ℕ) : DeviceProgram PortRegister PUnit := do
  let portsc ← read PortRegister.portsc
  writePortsc (BitField.set (portsc &&& 0x0e01c3e0#32) bit 1#1)

def clearConnectStatusChanged : DeviceProgram PortRegister PUnit := clearStatusBit 17

def clearPortResetChange : DeviceProgram PortRegister PUnit := clearStatusBit 21

end Port

/-- What `ResetPort` does to a port when no other one is being addressed: whether it was reset. -/
def resetPort : DeviceProgram PortRegister Bool := do
  let isConnected ← Port.isConnected
  if !isConnected then
    pure false
  else do
    Port.reset
    pure true

/-- What `EnableSlot` does to a port: whether it asks for a slot. -/
def enableSlot : DeviceProgram PortRegister Bool := do
  let isEnabled ← Port.isEnabled
  let resetCompleted ← Port.isPortResetChanged
  if isEnabled && resetCompleted then do
    Port.clearPortResetChange
    pure true
  else
    pure false

/-- There is an event for the port that was not there before. -/
def eventSince (events : ℕ) (r : PortRegister) : Bool := decide (events < r.events)

/-- From `ConfigurePort` to the event at which `EnableSlot` is called: whether the port was reset,
and whether a slot was asked for. -/
def bringUpPort : DeviceProgram PortRegister (Bool × Bool) := do
  let events ← read PortRegister.events
  let isReset ← resetPort
  if !isReset then
    pure (false, false)
  else do
    wait (eventSince events)
    let isEnabling ← enableSlot
    pure (true, isEnabling)

end TommyOS.Usb
