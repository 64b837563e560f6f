import Mathlib.Data.BitVec
import Mathlib.Data.Nat.Notation

/-!
# Endpoints and requests

`EndpointID` and `EndpointConfig` of `endpoint.hpp`, and `SetupData` of `setupdata.hpp` with the
requests that the driver makes.
-/

namespace TommyOS.Usb

/-- `EndpointID`, by its address. -/
structure EndpointID where
  addr : ℕ
deriving DecidableEq

namespace EndpointID

def ofNumber (epNum : ℕ) (dirIn : Bool) : EndpointID := ⟨epNum <<< 1 ||| dirIn.toNat⟩

def address (epId : EndpointID) : ℕ := epId.addr

def number (epId : EndpointID) : ℕ := epId.addr >>> 1

def isIn (epId : EndpointID) : Bool := epId.addr.testBit 0

end EndpointID

def kDefaultControlPipeID : EndpointID := .ofNumber 0 true

inductive EndpointType where
  | kControl
  | kIsochronous
  | kBulk
  | kInterrupt
deriving DecidableEq

/-- The type with a number of two bits. -/
def EndpointType.ofBits (bits : BitVec 2) : EndpointType :=
  if bits = 0#2 then .kControl
  else if bits = 1#2 then .kIsochronous
  else if bits = 2#2 then .kBulk
  else .kInterrupt

structure EndpointConfig where
  epId : EndpointID
  epType : EndpointType
  maxPacketSize : ℕ
  interval : ℕ

/-! ## `SetupData` -/

structure SetupData where
  requestType : BitVec 8
  request : BitVec 8
  value : BitVec 16
  index : BitVec 16
  length : BitVec 16
deriving DecidableEq

namespace request

def kGetDescriptor : BitVec 8 := 6#8
def kSetConfiguration : BitVec 8 := 9#8
def kSetProtocol : BitVec 8 := 11#8

end request

namespace SetupData

/-- The byte with the fields of `request_type`. -/
def requestTypeBits (direction : BitVec 1) (type : BitVec 2) (recipient : BitVec 5) : BitVec 8 :=
  direction ++ type ++ recipient

/-- The request of `GetDescriptor`. -/
def getDescriptor (descType descIndex : BitVec 8) (len : ℕ) : SetupData where
  requestType := requestTypeBits 1#1 0#2 0#5
  request := request.kGetDescriptor
  value := descType ++ descIndex
  index := 0#16
  length := BitVec.ofNat 16 len

/-- The request of `SetConfiguration`. -/
def setConfiguration (configValue : BitVec 8) : SetupData where
  requestType := requestTypeBits 0#1 0#2 0#5
  request := request.kSetConfiguration
  value := configValue.setWidth 16
  index := 0#16
  length := 0#16

/-- The request of a HID driver for the boot protocol. -/
def setProtocol (interfaceIndex : BitVec 8) : SetupData where
  requestType := requestTypeBits 0#1 1#2 1#5
  request := request.kSetProtocol
  value := 0#16
  index := interfaceIndex.setWidth 16
  length := 0#16

end SetupData

end TommyOS.Usb
