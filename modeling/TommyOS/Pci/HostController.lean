import TommyOS.Pci.Msi

/-!
# The host controller among the devices

What `KernelMainNewStack` does with the devices that the scan has found: it looks for the host
controller, sets up its interrupt, reads where its registers are, and takes its ports over from an
EHCI controller of Intel.
-/

namespace TommyOS

namespace Pci

/-- `ClassCode::Match(b, s, i)`. -/
def ClassCode.isMatchInterface (cc : ClassCode) (b s i : BitVec 8) : Bool :=
  cc.isMatch b s && i == cc.interface

/-- `ReadVendorId` of a device. -/
def vendorIdOf (space : ConfigSpace) (dev : Device) : BitVec 16 :=
  readVendorId space dev.bus dev.device dev.function

def isXhc (dev : Device) : Bool := dev.classCode.isMatchInterface 0x0c#8 0x03#8 0x30#8

def isEhci (dev : Device) : Bool := dev.classCode.isMatchInterface 0x0c#8 0x03#8 0x20#8

/-- The loop of `lookupXHC`, with the controller found so far. -/
def lookupXHCFrom (space : ConfigSpace) : Option Device → List Device → Option Device
  | xhcDev, [] => xhcDev
  | xhcDev, dev :: devices =>
    if isXhc dev then
      if vendorIdOf space dev = 0x8086#16 then some dev
      else lookupXHCFrom space (some dev) devices
    else lookupXHCFrom space xhcDev devices

/-- `lookupXHC`: a controller of Intel ends the search, another one does not. -/
def lookupXHC (space : ConfigSpace) (t : DeviceTable) : Option Device :=
  lookupXHCFrom space none t.listed

def calcBarAddress (barIndex : BitVec 32) : BitVec 8 := (0x10#32 + barIndex * 4#32).setWidth 8

/-- `ReadBar`. -/
def readBar (space : ConfigSpace) (dev : Device) (barIndex : BitVec 32) : Either (BitVec 64) :=
  if 6#32 ≤ barIndex then ⟨0#64, .kIndexOutOfRange⟩
  else
    let addr := calcBarAddress barIndex
    let bar := readConfReg space dev addr
    -- the bit 2 says whether the address has 64 bits
    if bar &&& 4#32 = 0#32 then ⟨bar.setWidth 64, .kSuccess⟩
    else if 5#32 ≤ barIndex then ⟨0#64, .kIndexOutOfRange⟩
    else
      let barUpper := readConfReg space dev (addr + 4#8)
      ⟨bar.setWidth 64 ||| barUpper.setWidth 64 <<< 32, .kSuccess⟩

/-- The loop of `SwitchEhci2Xhci`. -/
def intelEhcExist (space : ConfigSpace) : List Device → Bool
  | [] => false
  | dev :: devices =>
    if isEhci dev && vendorIdOf space dev == 0x8086#16 then true
    else intelEhcExist space devices

/-- `SwitchEhci2Xhci`: the superspeed terminations and the port routing. -/
def switchEhci2Xhci (space : ConfigSpace) (t : DeviceTable) (xhcDev : Device) : ConfigSpace :=
  if ¬ intelEhcExist space t.listed then space
  else
    let superspeedPorts := readConfReg space xhcDev 0xdc#8
    let space := writeConfReg space xhcDev 0xd8#8 superspeedPorts
    let ehci2xhciPorts := readConfReg space xhcDev 0xd4#8
    writeConfReg space xhcDev 0xd0#8 ehci2xhciPorts

/-- `devices` before the scan. -/
def DeviceTable.unscanned : DeviceTable :=
  ⟨fun _ => ⟨0#8, 0#8, 0#8, 0#8, ⟨0#8, 0#8, 0#8⟩⟩, 0, DeviceTable.zero_le⟩

/-- What the kernel knows of the host controller before it starts it. -/
structure FoundController where
  xhcDev : Device
  msi : Error
  mmioBase : BitVec 64
deriving DecidableEq

/-- The part of `KernelMainNewStack` from the scan to the constructor of the controller. Without a
host controller a null pointer is used, which is `none` here, as are a scan and a walk that need
more than `depth` and `fuel`. -/
def findController (space : ConfigSpace) (depth fuel : ℕ) (bspLocalApicId : BitVec 8) :
    Option (FoundController × ConfigSpace) := do
  let (_, t) ← scanAllBus space depth .unscanned
  let xhcDev ← lookupXHC space t
  let (msi, space) ← configureMSIFixedDestination space fuel xhcDev bspLocalApicId .kLevel .kFixed
    0x40#8 0#32
  let xhcBar := readBar space xhcDev 0#32
  let xhcMmioBase := xhcBar.value &&& ~~~0xf#64
  let space :=
    if vendorIdOf space xhcDev = 0x8086#16 then switchEhci2Xhci space t xhcDev else space
  some (⟨xhcDev, msi, xhcMmioBase⟩, space)

end Pci

end TommyOS
