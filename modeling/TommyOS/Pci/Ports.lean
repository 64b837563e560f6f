import TommyOS.Lib.StateProgram
import TommyOS.Pci.HostController

/-!
# The configuration space through the ports

Every access of `pci` writes the address port and then uses the data port. The programs below are
the functions of `pci` as they run on the ports. They are written a second time because a read is
here no value but two accesses, of which the first leaves its address behind; the functions on a
`ConfigSpace` are the level above, and every one of them has its lemma in `PortsTheorems`. What
does not touch a port (the table, the loops, the fields of a capability) is shared.
-/

namespace TommyOS.Pci

/-- The address that was written last, and the configuration space behind the ports. -/
structure Ports where
  address : BitVec 32
  space : ConfigSpace

/-- A program over the ports, which may need more stack than there is. -/
abbrev PortProgram := StateT Ports Option

/-- A run that goes deeper than the kernel's stack allows. -/
def PortProgram.fail {α : Type} : PortProgram α := StateT.lift none

/-- `kConfigAddress` and `kDataAddress`, the numbers of the ports. -/
def kConfigAddress : BitVec 16 := 0x0cf8#16

def kDataAddress : BitVec 16 := 0x0cfc#16

/-- `IoOut32`; the other ports are no concern of the configuration space. -/
def ioOut32 (addr : BitVec 16) (data : BitVec 32) : PortProgram PUnit :=
  modify fun s =>
    if addr = kConfigAddress then { s with address := data }
    else if addr = kDataAddress then { s with space := Pci.writeData s.space s.address data }
    else s

/-- `IoIn32`. -/
def ioIn32 (addr : BitVec 16) : PortProgram (BitVec 32) := do
  let s ← get
  pure (if addr = kConfigAddress then s.address
    else if addr = kDataAddress then Pci.readData s.space s.address
    else 0xffffffff#32)

namespace Ports

/-- The register that the data port stands for from now on. -/
def writeAddress (address : BitVec 32) : PortProgram PUnit := ioOut32 kConfigAddress address

def writeData (value : BitVec 32) : PortProgram PUnit := ioOut32 kDataAddress value

def readData : PortProgram (BitVec 32) := ioIn32 kDataAddress

/-! ## Registers -/

/-- The lower half of the first register. -/
def readVendorId (bus device function : BitVec 8) : PortProgram (BitVec 16) := do
  writeAddress (makeAddress bus device function 0x00#8)
  let data ← readData
  pure ((data &&& 0xffff#32).setWidth 16)

/-- The third byte of the register at `0x0c`. -/
def readHeaderType (bus device function : BitVec 8) : PortProgram (BitVec 8) := do
  writeAddress (makeAddress bus device function 0x0c#8)
  let data ← readData
  pure ((data >>> 16 &&& 0xff#32).setWidth 8)

/-- The upper three bytes of the register at `0x08`. -/
def readClassCode (bus device function : BitVec 8) : PortProgram ClassCode := do
  writeAddress (makeAddress bus device function 0x08#8)
  let reg ← readData
  pure
    { base := (reg >>> 24 &&& 0xff#32).setWidth 8
      sub := (reg >>> 16 &&& 0xff#32).setWidth 8
      interface := (reg >>> 8 &&& 0xff#32).setWidth 8 }

/-- The register of a bridge with its bus numbers. -/
def readBusNumbers (bus device function : BitVec 8) : PortProgram (BitVec 32) := do
  writeAddress (makeAddress bus device function 0x18#8)
  readData

/-- `ReadConfReg`: any register of a device. -/
def readConfReg (dev : Device) (regAddr : BitVec 8) : PortProgram (BitVec 32) := do
  writeAddress (makeAddress dev.bus dev.device dev.function regAddr)
  readData

/-- `WriteConfReg`. -/
def writeConfReg (dev : Device) (regAddr : BitVec 8) (value : BitVec 32) : PortProgram PUnit := do
  writeAddress (makeAddress dev.bus dev.device dev.function regAddr)
  writeData value

/-! ## The scan -/

/-- The scan of a bus, with the table it goes on from. -/
abbrev BusScan := BitVec 8 → DeviceTable → PortProgram (Error × DeviceTable)

/-- The registers are read before the table is looked at, as in the source. -/
def scanFunction (scanBus : BusScan) (bus device function : BitVec 8) (t : DeviceTable) :
    PortProgram (Error × DeviceTable) := do
  let classCode ← readClassCode bus device function
  let headerType ← readHeaderType bus device function
  let r := addDevice ⟨bus, device, function, headerType, classCode⟩ t
  if r.1.failed then
    pure (r.1, r.2)
  else if classCode.isMatch 0x06#8 0x04#8 then do
    let busNumbers ← readBusNumbers bus device function
    scanBus ((busNumbers >>> 8 &&& 0xff#32).setWidth 8) r.2
  else
    pure (.kSuccess, r.2)

/-- The body of the loops over functions and devices: without a vendor there is nothing. -/
def whenPresent (bus device function : BitVec 8)
    (body : DeviceTable → PortProgram (Error × DeviceTable)) (t : DeviceTable) :
    PortProgram (Error × DeviceTable) := do
  let vendorId ← readVendorId bus device function
  if vendorId = 0xffff#16 then pure (.kSuccess, t) else body t

/-- The header type is read a second time here. -/
def scanDevice (scanBus : BusScan) (bus device : BitVec 8) (t : DeviceTable) :
    PortProgram (Error × DeviceTable) := do
  let r ← scanFunction scanBus bus device 0#8 t
  if r.1.failed then
    pure (r.1, r.2)
  else
    let headerType ← readHeaderType bus device 0#8
    if isSingleFunctionDevice headerType then
      pure (.kSuccess, r.2)
    else
      forEach
        (fun function => whenPresent bus device function
          (scanFunction scanBus bus device function))
        (counter 1 7) r.2

/-- The recursion is on the depth that the stack allows. -/
def scanBus : ℕ → BusScan
  | 0, _, _ => .fail
  | depth + 1, bus, t =>
    forEach (fun device => whenPresent bus device 0#8 (scanDevice (scanBus depth) bus device))
      (counter 0 32) t

/-- The scan starts on an empty table, at bus 0 or at each host bridge. -/
def scanAllBus (depth : ℕ) (t : DeviceTable) : PortProgram (Error × DeviceTable) := do
  let t : DeviceTable := { t with numDevice := 0, numDevice_le := DeviceTable.zero_le }
  let headerType ← readHeaderType 0#8 0#8 0#8
  if isSingleFunctionDevice headerType then
    scanBus depth 0#8 t
  else
    forEach (fun function => whenPresent 0#8 0#8 function (scanBus depth function)) (counter 0 8) t

/-! ## Message signalled interrupts -/

/-- A register that is read if the capability has it. -/
def readWhen (present : Bool) (dev : Device) (regAddr : BitVec 8) : PortProgram (BitVec 32) :=
  if present then readConfReg dev regAddr else pure 0#32

/-- A register that is written if the capability has it. -/
def writeWhen (present : Bool) (dev : Device) (regAddr : BitVec 8) (value : BitVec 32) :
    PortProgram PUnit :=
  if present then writeConfReg dev regAddr value else pure ⟨⟩

/-- The registers are read in the order of the source. -/
def readMSICapability (dev : Device) (capAddr : BitVec 8) : PortProgram MSICapability := do
  let data ← readConfReg dev capAddr
  let header : CapabilityHeader := ⟨data⟩
  let msgAddr ← readConfReg dev (capAddr + 4#8)
  let msgUpperAddr ← readWhen header.addr64Capable dev (capAddr + 8#8)
  let msgDataAddr := if header.addr64Capable then capAddr + 12#8 else capAddr + 8#8
  let msgData ← readConfReg dev msgDataAddr
  let maskBits ← readWhen header.perVectorMaskCapable dev (msgDataAddr + 4#8)
  let pendingBits ← readWhen header.perVectorMaskCapable dev (msgDataAddr + 8#8)
  pure ⟨header, msgAddr, msgUpperAddr, msgData, maskBits, pendingBits⟩

/-- The registers are written in the order of the source. -/
def writeMSICapability (dev : Device) (capAddr : BitVec 8) (msiCap : MSICapability) :
    PortProgram PUnit := do
  writeConfReg dev capAddr msiCap.header.data
  writeConfReg dev (capAddr + 4#8) msiCap.msgAddr
  writeWhen msiCap.header.addr64Capable dev (capAddr + 8#8) msiCap.msgUpperAddr
  let msgDataAddr := if msiCap.header.addr64Capable then capAddr + 12#8 else capAddr + 8#8
  writeConfReg dev msgDataAddr msiCap.msgData
  writeWhen msiCap.header.perVectorMaskCapable dev (msgDataAddr + 4#8) msiCap.maskBits
  writeWhen msiCap.header.perVectorMaskCapable dev (msgDataAddr + 8#8) msiCap.pendingBits

/-- The capability is read, changed and written back. -/
def configureMSIRegister (dev : Device) (capAddr : BitVec 8)
    (msgAddr msgData numVectorExponent : BitVec 32) : PortProgram Error := do
  let msiCap ← readMSICapability dev capAddr
  let header :=
    if msiCap.header.multiMsgCapable.setWidth 32 ≤ numVectorExponent then
      msiCap.header.setMultiMsgEnable msiCap.header.multiMsgCapable
    else
      msiCap.header.setMultiMsgEnable (numVectorExponent.setWidth 3)
  let header := header.setMsiEnable 1#1
  writeMSICapability dev capAddr
    { msiCap with header := header, msgAddr := msgAddr, msgData := msgData }
  pure .kSuccess

/-- The loop of `ConfigureMSI`, with the capabilities found so far. -/
def findCapabilities (dev : Device) :
    ℕ → BitVec 8 → BitVec 8 → BitVec 8 → PortProgram (BitVec 8 × BitVec 8)
  | 0, _, _, _ => .fail
  | fuel + 1, capPointer, msiCapAddr, msixCapAddr =>
    if capPointer = 0#8 then
      pure (msiCapAddr, msixCapAddr)
    else do
      let data ← readConfReg dev capPointer
      let header : CapabilityHeader := ⟨data⟩
      if header.capId = kCapabilityMSI then
        findCapabilities dev fuel header.nextPtr capPointer msixCapAddr
      else if header.capId = kCapabilityMSIX then
        findCapabilities dev fuel header.nextPtr msiCapAddr capPointer
      else
        findCapabilities dev fuel header.nextPtr msiCapAddr msixCapAddr

/-- The list is walked to its end before a capability is set up. -/
def configureMSI (fuel : ℕ) (dev : Device) (msgAddr msgData numVectorExponent : BitVec 32) :
    PortProgram Error := do
  let pointer ← readConfReg dev 0x34#8
  let caps ← findCapabilities dev fuel ((pointer &&& 0xff#32).setWidth 8) 0#8 0#8
  if caps.1 ≠ 0#8 then
    configureMSIRegister dev caps.1 msgAddr msgData numVectorExponent
  else if caps.2 ≠ 0#8 then
    pure .kNotImplemented
  else
    pure .kNoPCIMSI

/-- The message, and the capability that is to send it. -/
def configureMSIFixedDestination (fuel : ℕ) (dev : Device) (apicId : BitVec 8)
    (triggerMode : MSITriggerMode) (deliveryMode : MSIDeliveryMode) (vector : BitVec 8)
    (numVectorExponent : BitVec 32) : PortProgram Error :=
  let msgAddr := 0xfee00000#32 ||| apicId.setWidth 32 <<< 12
  let msgData := deliveryMode.value <<< 8 ||| vector.setWidth 32
  let msgData := if triggerMode = .kLevel then msgData ||| 0xc000#32 else msgData
  configureMSI fuel dev msgAddr msgData numVectorExponent

/-! ## The host controller -/

/-- `ReadVendorId` of a device. -/
def vendorIdOf (dev : Device) : PortProgram (BitVec 16) :=
  readVendorId dev.bus dev.device dev.function

/-- The loop of `lookupXHC`: the vendor of a device that is no host controller is not read. -/
def lookupXHCFrom : Option Device → List Device → PortProgram (Option Device)
  | xhcDev, [] => pure xhcDev
  | xhcDev, dev :: devices =>
    if isXhc dev then do
      let vendorId ← vendorIdOf dev
      if vendorId = 0x8086#16 then pure (some dev) else lookupXHCFrom (some dev) devices
    else lookupXHCFrom xhcDev devices

/-- The upper half of a 64-bit base address is in the next register. -/
def readBar (dev : Device) (barIndex : BitVec 32) : PortProgram (Either (BitVec 64)) := do
  if 6#32 ≤ barIndex then pure ⟨0#64, .kIndexOutOfRange⟩
  else
    let addr := calcBarAddress barIndex
    let bar ← readConfReg dev addr
    if bar &&& 4#32 = 0#32 then pure ⟨bar.setWidth 64, .kSuccess⟩
    else if 5#32 ≤ barIndex then pure ⟨0#64, .kIndexOutOfRange⟩
    else
      let barUpper ← readConfReg dev (addr + 4#8)
      pure ⟨bar.setWidth 64 ||| barUpper.setWidth 64 <<< 32, .kSuccess⟩

/-- The loop of `SwitchEhci2Xhci`, whose `&&` reads the vendor of an EHCI controller only. -/
def intelEhcExist : List Device → PortProgram Bool
  | [] => pure false
  | dev :: devices =>
    if isEhci dev then do
      let vendorId ← vendorIdOf dev
      if vendorId = 0x8086#16 then pure true else intelEhcExist devices
    else intelEhcExist devices

/-- The ports are taken over in two pairs of accesses. -/
def switchEhci2Xhci (t : DeviceTable) (xhcDev : Device) : PortProgram PUnit := do
  let exist ← intelEhcExist t.listed
  if ¬ exist then pure ⟨⟩
  else
    let superspeedPorts ← readConfReg xhcDev 0xdc#8
    writeConfReg xhcDev 0xd8#8 superspeedPorts
    let ehci2xhciPorts ← readConfReg xhcDev 0xd4#8
    writeConfReg xhcDev 0xd0#8 ehci2xhciPorts

/-- The switch is for a controller of Intel. -/
def switchWhen (isIntel : Bool) (t : DeviceTable) (xhcDev : Device) : PortProgram PUnit :=
  if isIntel then switchEhci2Xhci t xhcDev else pure ⟨⟩

/-- The part of `KernelMainNewStack` from the scan to the constructor of the controller. -/
def findController (depth fuel : ℕ) (bspLocalApicId : BitVec 8) : PortProgram FoundController := do
  let r ← scanAllBus depth .unscanned
  let found ← lookupXHCFrom none r.2.listed
  match found with
  | none => .fail
  | some xhcDev => do
    let msi ← configureMSIFixedDestination fuel xhcDev bspLocalApicId .kLevel .kFixed 0x40#8 0#32
    let xhcBar ← readBar xhcDev 0#32
    let vendorId ← vendorIdOf xhcDev
    switchWhen (vendorId == 0x8086#16) r.2 xhcDev
    pure ⟨xhcDev, msi, xhcBar.value &&& ~~~0xf#64⟩

end Ports

end TommyOS.Pci
