import TommyOS.Pci.Pci

/-!
# Message signalled interrupts

The part of `pci` that finds the MSI capability of a device and writes it. The configuration
space is plain storage here. The walk of the capability list takes the number of entries it
may visit, and is `none` when that does not suffice.
-/

namespace TommyOS.Pci

/-! ## Registers of a device -/

/-- `WriteData`, when `WriteAddress` has set the address port. -/
def writeData (space : ConfigSpace) (address value : BitVec 32) : ConfigSpace :=
  fun bus device function register =>
    if address.getLsbD 31 ∧ bus = address.extractLsb' 16 8 ∧ device = address.extractLsb' 11 5 ∧
        function = address.extractLsb' 8 3 ∧ register = address.extractLsb' 2 6 then
      value
    else
      space bus device function register

/-- `ReadConfReg`. -/
def readConfReg (space : ConfigSpace) (dev : Device) (regAddr : BitVec 8) : BitVec 32 :=
  readData space (makeAddress dev.bus dev.device dev.function regAddr)

/-- `WriteConfReg`. -/
def writeConfReg (space : ConfigSpace) (dev : Device) (regAddr : BitVec 8) (value : BitVec 32) :
    ConfigSpace :=
  writeData space (makeAddress dev.bus dev.device dev.function regAddr) value

/-! ## Capabilities -/

/-- `MSITriggerMode`. -/
inductive MSITriggerMode where
  | kEdge
  | kLevel
deriving DecidableEq

/-- `MSIDeliveryMode`, with its only enumerator. -/
inductive MSIDeliveryMode where
  | kFixed
deriving DecidableEq

/-- The value of the enumerator. -/
def MSIDeliveryMode.value : MSIDeliveryMode → BitVec 32
  | .kFixed => 0b000#32

/-- `CapabilityHeader`, the union over the word `data`. -/
structure CapabilityHeader where
  data : BitVec 32
deriving DecidableEq

namespace CapabilityHeader

variable (h : CapabilityHeader)

/-- What kind of capability it is. -/
def capId : BitVec 8 := h.data.extractLsb' 0 8

/-- Where the next capability lies, 0 behind the last one. -/
def nextPtr : BitVec 8 := h.data.extractLsb' 8 8

/-! The bits of the header of an MSI capability. -/

def msiEnable : BitVec 1 := h.data.extractLsb' 16 1

def multiMsgCapable : BitVec 3 := h.data.extractLsb' 17 3

def multiMsgEnable : BitVec 3 := h.data.extractLsb' 20 3

/-- The capability has an upper address word. -/
def addr64Capable : Bool := h.data.getLsbD 23

/-- The capability has mask and pending bits. -/
def perVectorMaskCapable : Bool := h.data.getLsbD 24

def setMsiEnable (value : BitVec 1) : CapabilityHeader :=
  ⟨h.data &&& ~~~(1#32 <<< 16) ||| value.setWidth 32 <<< 16⟩

def setMultiMsgEnable (value : BitVec 3) : CapabilityHeader :=
  ⟨h.data &&& ~~~(7#32 <<< 20) ||| value.setWidth 32 <<< 20⟩

end CapabilityHeader

/-- `MSICapability`, with the fields that a capability need not have as 0 there. -/
structure MSICapability where
  header : CapabilityHeader
  msgAddr : BitVec 32
  msgUpperAddr : BitVec 32
  msgData : BitVec 32
  maskBits : BitVec 32
  pendingBits : BitVec 32

/-- The identifiers of the two kinds of capability. -/
def kCapabilityMSI : BitVec 8 := 0x05#8

def kCapabilityMSIX : BitVec 8 := 0x11#8

/-- `ReadCapabilityHeader`: the first register of a capability. -/
def readCapabilityHeader (space : ConfigSpace) (dev : Device) (addr : BitVec 8) :
    CapabilityHeader :=
  ⟨readConfReg space dev addr⟩

/-- The place of the data and of the masks depends on the size of the address. -/
def readMSICapability (space : ConfigSpace) (dev : Device) (capAddr : BitVec 8) : MSICapability :=
  let header : CapabilityHeader := ⟨readConfReg space dev capAddr⟩
  let msgAddr := readConfReg space dev (capAddr + 4#8)
  let msgUpperAddr := if header.addr64Capable then readConfReg space dev (capAddr + 8#8) else 0#32
  -- the data register follows the address, which has one word or two
  let msgDataAddr := if header.addr64Capable then capAddr + 12#8 else capAddr + 8#8
  { header := header
    msgAddr := msgAddr
    msgUpperAddr := msgUpperAddr
    msgData := readConfReg space dev msgDataAddr
    maskBits :=
      if header.perVectorMaskCapable then readConfReg space dev (msgDataAddr + 4#8) else 0#32
    pendingBits :=
      if header.perVectorMaskCapable then readConfReg space dev (msgDataAddr + 8#8) else 0#32 }

/-- The fields that the capability does not have are not written. -/
def writeMSICapability (space : ConfigSpace) (dev : Device) (capAddr : BitVec 8)
    (msiCap : MSICapability) : ConfigSpace :=
  let space := writeConfReg space dev capAddr msiCap.header.data
  let space := writeConfReg space dev (capAddr + 4#8) msiCap.msgAddr
  let space :=
    if msiCap.header.addr64Capable then writeConfReg space dev (capAddr + 8#8) msiCap.msgUpperAddr
    else space
  let msgDataAddr := if msiCap.header.addr64Capable then capAddr + 12#8 else capAddr + 8#8
  let space := writeConfReg space dev msgDataAddr msiCap.msgData
  if msiCap.header.perVectorMaskCapable then
    let space := writeConfReg space dev (msgDataAddr + 4#8) msiCap.maskBits
    writeConfReg space dev (msgDataAddr + 8#8) msiCap.pendingBits
  else
    space

/-! ## Configuration -/

/-- At most as many messages are enabled as the capability has. -/
def configureMSIRegister (space : ConfigSpace) (dev : Device) (capAddr : BitVec 8)
    (msgAddr msgData numVectorExponent : BitVec 32) : Error × ConfigSpace :=
  let msiCap := readMSICapability space dev capAddr
  let header :=
    -- no more vectors are enabled than the function is capable of
    if msiCap.header.multiMsgCapable.setWidth 32 ≤ numVectorExponent then
      msiCap.header.setMultiMsgEnable msiCap.header.multiMsgCapable
    else
      msiCap.header.setMultiMsgEnable (numVectorExponent.setWidth 3)
  let header := header.setMsiEnable 1#1
  let msiCap := { msiCap with header := header, msgAddr := msgAddr, msgData := msgData }
  (.kSuccess, writeMSICapability space dev capAddr msiCap)

/-- The loop of `ConfigureMSI` over the capability list: the addresses of the last MSI and
MSI-X capabilities, or 0. -/
def findCapabilities (space : ConfigSpace) (dev : Device) :
    ℕ → BitVec 8 → BitVec 8 → BitVec 8 → Option (BitVec 8 × BitVec 8)
  | 0, _, _, _ => none
  | fuel + 1, capPointer, msiCapAddr, msixCapAddr =>
    if capPointer = 0#8 then
      some (msiCapAddr, msixCapAddr)
    else
      let header := readCapabilityHeader space dev capPointer
      if header.capId = kCapabilityMSI then
        -- a later MSI capability replaces the one found before
        findCapabilities space dev fuel header.nextPtr capPointer msixCapAddr
      else if header.capId = kCapabilityMSIX then
        findCapabilities space dev fuel header.nextPtr msiCapAddr capPointer
      else
        findCapabilities space dev fuel header.nextPtr msiCapAddr msixCapAddr

/-- MSI where the device has it; MSI-X is not implemented. -/
def configureMSI (space : ConfigSpace) (fuel : ℕ) (dev : Device)
    (msgAddr msgData numVectorExponent : BitVec 32) : Option (Error × ConfigSpace) := do
  let capPointer := (readConfReg space dev 0x34#8 &&& 0xff#32).setWidth 8
  let (msiCapAddr, msixCapAddr) ← findCapabilities space dev fuel capPointer 0#8 0#8
  if msiCapAddr ≠ 0#8 then
    some (configureMSIRegister space dev msiCapAddr msgAddr msgData numVectorExponent)
  else if msixCapAddr ≠ 0#8 then
    some (.kNotImplemented, space)
  else
    some (.kNoPCIMSI, space)

/-- The message that asks the processor with an APIC ID for an interrupt. -/
def configureMSIFixedDestination (space : ConfigSpace) (fuel : ℕ) (dev : Device)
    (apicId : BitVec 8) (triggerMode : MSITriggerMode) (deliveryMode : MSIDeliveryMode)
    (vector : BitVec 8) (numVectorExponent : BitVec 32) : Option (Error × ConfigSpace) :=
  let msgAddr := 0xfee00000#32 ||| apicId.setWidth 32 <<< 12
  let msgData := deliveryMode.value <<< 8 ||| vector.setWidth 32
  let msgData := if triggerMode = .kLevel then msgData ||| 0xc000#32 else msgData
  configureMSI space fuel dev msgAddr msgData numVectorExponent

end TommyOS.Pci
