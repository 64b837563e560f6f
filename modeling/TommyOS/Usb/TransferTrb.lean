import TommyOS.Usb.Endpoint
import TommyOS.Usb.EventRing

/-!
# The fields of commands, transfers and events

How the driver fills the TRBs it pushes, and what it reads of the events. Where a field is not
set the constructor of the TRB leaves it zero; the cycle bit is the business of the ring.
-/

namespace TommyOS.Usb

/-! ## Transfers -/

namespace SetupStageTRB

def type : BitVec 6 := 2#6

def kNoDataStage : BitVec 2 := 0#2
def kOutDataStage : BitVec 2 := 2#2
def kInDataStage : BitVec 2 := 3#2

/-- `MakeSetupStageTRB`. -/
def make (setupData : SetupData) (transferType : BitVec 2) : TRB :=
  ![setupData.value ++ setupData.request ++ setupData.requestType,
    setupData.length ++ setupData.index,
    8#32,
    0#14 ++ transferType ++ type ++ 0#3 ++ 1#1 ++ 0#6]

/-- The request in the fields of a setup stage. -/
def setupData (trb : TRB) : SetupData where
  requestType := (trb 0).extractLsb' 0 8
  request := (trb 0).extractLsb' 8 8
  value := (trb 0).extractLsb' 16 16
  index := (trb 1).extractLsb' 0 16
  length := (trb 1).extractLsb' 16 16

end SetupStageTRB

/-- The field `trb_transfer_length` of a TRB with a data buffer. -/
def TRB.trbTransferLength (trb : TRB) : BitVec 17 := (trb 2).extractLsb' 0 17

/-- The last word of the stages with a direction. -/
def stageControl (type : BitVec 6) (direction ioc : Bool) : BitVec 32 :=
  0#15 ++ BitVec.ofBool direction ++ type ++ 0#4 ++ BitVec.ofBool ioc ++ 0#5

namespace DataStageTRB

def type : BitVec 6 := 3#6

/-- `MakeDataStageTRB`, which reports its completion. -/
def make (buf : BitVec 64) (len : ℕ) (dirIn : Bool) : TRB :=
  ![buf.setWidth 32, (buf >>> 32).setWidth 32, 0#15 ++ BitVec.ofNat 17 len,
    stageControl type dirIn true]

end DataStageTRB

namespace StatusStageTRB

def type : BitVec 6 := 4#6

def make (direction ioc : Bool) : TRB := ![0#32, 0#32, 0#32, stageControl type direction ioc]

end StatusStageTRB

namespace NormalTRB

def type : BitVec 6 := 1#6

/-- The transfer of `InterruptIn`. -/
def make (buf : BitVec 64) (len : ℕ) : TRB :=
  ![buf.setWidth 32, (buf >>> 32).setWidth 32, 0#15 ++ BitVec.ofNat 17 len,
    0#16 ++ type ++ 0#4 ++ 1#1 ++ 0#2 ++ 1#1 ++ 0#2]

end NormalTRB

/-! ## Commands -/

namespace EnableSlotCommandTRB

def type : BitVec 6 := 9#6

def make : TRB := ![0#32, 0#32, 0#32, 0#16 ++ type ++ 0#10]

end EnableSlotCommandTRB

/-- A command about the input context of a slot. -/
def inputContextCommand (type : BitVec 6) (inputContext : BitVec 64) (slotId : BitVec 8) : TRB :=
  ![(inputContext >>> 4 <<< 4).setWidth 32, (inputContext >>> 32).setWidth 32, 0#32,
    slotId ++ 0#8 ++ type ++ 0#10]

namespace AddressDeviceCommandTRB

def type : BitVec 6 := 11#6

def make (inputContext : BitVec 64) (slotId : BitVec 8) : TRB :=
  inputContextCommand type inputContext slotId

end AddressDeviceCommandTRB

namespace ConfigureEndpointCommandTRB

def type : BitVec 6 := 12#6

def make (inputContext : BitVec 64) (slotId : BitVec 8) : TRB :=
  inputContextCommand type inputContext slotId

end ConfigureEndpointCommandTRB

/-! ## Events -/

namespace TransferEventTRB

def pointer (trb : TRB) : BitVec 64 := trb.parameter

def trbTransferLength (trb : TRB) : BitVec 24 := (trb 2).extractLsb' 0 24

def completionCode (trb : TRB) : BitVec 8 := (trb 2).extractLsb' 24 8

def endpointID (trb : TRB) : EndpointID := ⟨((trb 3).extractLsb' 16 5).toNat⟩

def slotId (trb : TRB) : BitVec 8 := (trb 3).extractLsb' 24 8

/-- What was transferred of an issuer: its length less the residual, as an `int`. -/
def transferLength (trb issuer : TRB) : ℤ :=
  (issuer.trbTransferLength.setWidth 32 - (trbTransferLength trb).setWidth 32).toInt

end TransferEventTRB

namespace CommandCompletionEventTRB

def completionCode (trb : TRB) : BitVec 8 := (trb 2).extractLsb' 24 8

def slotId (trb : TRB) : BitVec 8 := (trb 3).extractLsb' 24 8

end CommandCompletionEventTRB

namespace PortStatusChangeEventTRB

def portId (trb : TRB) : BitVec 8 := (trb 0).extractLsb' 24 8

end PortStatusChangeEventTRB

end TommyOS.Usb
