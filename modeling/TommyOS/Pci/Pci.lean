import TommyOS.Error
import Mathlib.Data.BitVec
import Mathlib.Data.Nat.Notation
import Mathlib.Logic.Function.Basic

/-!
# `pci`: configuration space and the scan of the buses

The configuration space is read through the address and data ports. The scan recurses over
the bridges it finds, and nothing bounds the recursion but the table of devices: the functions
below take the depth that is left, and are `none` when it does not suffice.
-/

namespace TommyOS.Pci

/-! ## Configuration registers -/

/-- The 32-bit register of a bus, device, function and register number. -/
abbrev ConfigSpace := BitVec 8 → BitVec 5 → BitVec 3 → BitVec 6 → BitVec 32

/-- `MakeAddress`: the enable bit, then the parts from bit 16 on downwards. -/
def makeAddress (bus device function offset : BitVec 8) : BitVec 32 :=
  1#32 <<< 31 ||| bus.setWidth 32 <<< 16 ||| device.setWidth 32 <<< 11 |||
    function.setWidth 32 <<< 8 ||| (offset.setWidth 32 &&& 0xfc#32)

/-- `ReadData`, when `WriteAddress` has set the address port. The ports decode the address:
without the enable bit no register is selected. -/
def readData (space : ConfigSpace) (address : BitVec 32) : BitVec 32 :=
  if address.getLsbD 31 then
    space (address.extractLsb' 16 8) (address.extractLsb' 11 5) (address.extractLsb' 8 3)
      (address.extractLsb' 2 6)
  else
    0xffffffff#32

/-- `0xffff` where there is no function. -/
def readVendorId (space : ConfigSpace) (bus device function : BitVec 8) : BitVec 16 :=
  (readData space (makeAddress bus device function 0x00#8) &&& 0xffff#32).setWidth 16

def readHeaderType (space : ConfigSpace) (bus device function : BitVec 8) : BitVec 8 :=
  (readData space (makeAddress bus device function 0x0c#8) >>> 16 &&& 0xff#32).setWidth 8

structure ClassCode where
  base : BitVec 8
  sub : BitVec 8
  interface : BitVec 8
deriving DecidableEq

/-- `ClassCode::Match(b, s)`. -/
def ClassCode.isMatch (cc : ClassCode) (b s : BitVec 8) : Bool := b == cc.base && s == cc.sub

def readClassCode (space : ConfigSpace) (bus device function : BitVec 8) : ClassCode :=
  let reg := readData space (makeAddress bus device function 0x08#8)
  { base := (reg >>> 24 &&& 0xff#32).setWidth 8
    sub := (reg >>> 16 &&& 0xff#32).setWidth 8
    interface := (reg >>> 8 &&& 0xff#32).setWidth 8 }

def readBusNumbers (space : ConfigSpace) (bus device function : BitVec 8) : BitVec 32 :=
  readData space (makeAddress bus device function 0x18#8)

def isSingleFunctionDevice (headerType : BitVec 8) : Bool := headerType &&& 0x80#8 == 0#8

/-! ## The table of devices -/

/-- An entry of `devices`. -/
structure Device where
  bus : BitVec 8
  device : BitVec 8
  function : BitVec 8
  headerType : BitVec 8
  classCode : ClassCode
deriving DecidableEq

/-- What the scan does with the table that it fills. -/
class ScanTable (τ : Type) where
  clear : τ → τ
  addDevice : Device → τ → Error × τ

/-- `devices` and `num_device`. -/
structure DeviceTable where
  devices : Fin 32 → Device
  numDevice : ℕ
  numDevice_le : numDevice ≤ 32

/-- `devices[0..num_device)`. -/
def DeviceTable.listed (t : DeviceTable) : List Device :=
  List.ofFn fun i : Fin t.numDevice => t.devices (i.castLE t.numDevice_le)

theorem DeviceTable.zero_le : 0 ≤ 32 := Nat.zero_le 32

/-- `AddDevice`: nothing is written when all 32 entries are in use. -/
def addDevice (device : Device) (t : DeviceTable) : Error × DeviceTable :=
  if h : t.numDevice = 32 then
    (.kFull, t)
  else
    have hlt : t.numDevice < 32 := Nat.lt_of_le_of_ne t.numDevice_le h
    (.kSuccess,
      { devices := Function.update t.devices ⟨t.numDevice, hlt⟩ device
        numDevice := t.numDevice + 1
        numDevice_le := hlt })

instance : ScanTable DeviceTable where
  clear t := { t with numDevice := 0, numDevice_le := DeviceTable.zero_le }
  addDevice := addDevice

theorem scanTable_addDevice (device : Device) (t : DeviceTable) :
    ScanTable.addDevice device t = addDevice device t := rfl

/-! ## The scan -/

/-- The body of a loop for each value in turn; a failure ends the loop. -/
def forEach {m : Type → Type} [Monad m] {α σ : Type} (body : α → σ → m (Error × σ)) :
    List α → σ → m (Error × σ)
  | [], s => pure (.kSuccess, s)
  | a :: as, s => do
    let (err, s) ← body a s
    if err.failed then pure (err, s) else forEach body as s

/-- The `uint8_t` counter of a loop from `first` on. -/
def counter (first count : ℕ) : List (BitVec 8) :=
  (List.range' first count).map (BitVec.ofNat 8)

/-- A call of `ScanBus` on a table. -/
abbrev BusScan (τ : Type) := BitVec 8 → τ → Option (Error × τ)

section Scan

variable {τ : Type} [ScanTable τ] (space : ConfigSpace)

/-- `ScanFunction`, over the `ScanBus` it calls for a bridge. -/
def scanFunction (scanBus : BusScan τ) (bus device function : BitVec 8) (t : τ) :
    Option (Error × τ) :=
  let classCode := readClassCode space bus device function
  let headerType := readHeaderType space bus device function
  let (err, t) := ScanTable.addDevice ⟨bus, device, function, headerType, classCode⟩ t
  if err.failed then
    some (err, t)
  -- a PCI-to-PCI bridge: the secondary bus is in bits 8 to 15
  else if classCode.isMatch 0x06#8 0x04#8 then
    let busNumbers := readBusNumbers space bus device function
    scanBus ((busNumbers >>> 8 &&& 0xff#32).setWidth 8) t
  else
    some (.kSuccess, t)

/-- `ScanDevice`: a device with one function has only the first. -/
def scanDevice (scanBus : BusScan τ) (bus device : BitVec 8) (t : τ) : Option (Error × τ) := do
  let (err, t) ← scanFunction space scanBus bus device 0#8 t
  if err.failed then
    some (err, t)
  else if isSingleFunctionDevice (readHeaderType space bus device 0#8) then
    some (.kSuccess, t)
  else
    forEach
      (fun function t =>
        if readVendorId space bus device function = 0xffff#16 then some (.kSuccess, t)
        else scanFunction space scanBus bus device function t)
      (counter 1 7) t

/-- `ScanBus`, nested at most `depth` deep. -/
def scanBus : ℕ → BusScan τ
  | 0, _, _ => none
  | depth + 1, bus, t =>
    forEach
      (fun device t =>
        -- no device
        if readVendorId space bus device 0#8 = 0xffff#16 then some (.kSuccess, t)
        else scanDevice space (scanBus depth) bus device t)
      (counter 0 32) t

/-- `ScanAllBus`. Each function of a host bridge with several stands for a bus. -/
def scanAllBus (depth : ℕ) (t : τ) : Option (Error × τ) :=
  let t := ScanTable.clear t
  let headerType := readHeaderType space 0#8 0#8 0#8
  if isSingleFunctionDevice headerType then
    scanBus space depth 0#8 t
  else
    forEach
      (fun function t =>
        if readVendorId space 0#8 0#8 function = 0xffff#16 then some (.kSuccess, t)
        else scanBus space depth function t)
      (counter 0 8) t

end Scan

end TommyOS.Pci
