import TommyOS.Lib.BumpAllocator
import TommyOS.Lib.InputRun
import TommyOS.Usb.MemoryTheorems
import TommyOS.Usb.Xhci

/-!
# What the driver takes from the pool

The memory side of `Initialize`, `AddressDevice` and `ConfigureEndpoints`: their allocations, and
which of the pointers they dereference or hand to the controller. A null pointer does not stop
them, so it is logged like any other one.
-/

namespace TommyOS.Usb

/-- The pool during a call, the pointers that the call obtained and used, the last one first, and
whether an allocation failed. -/
structure PoolLog where
  pool : MemoryPool
  uses : List (BitVec 64)
  exhausted : Bool

/-- What `AllocMem` returns when it fails. -/
def nullptr : BitVec 64 := 0#64

/-! ## Sizes of objects -/

def sizeofPointer : BitVec 64 := 8#64
def sizeofRing : BitVec 64 := 32#64
def sizeofEventRingSegmentTableEntry : BitVec 64 := 16#64

namespace PoolLog

def start (pool : MemoryPool) : PoolLog := ⟨pool, [], false⟩

/-- A pointer is dereferenced or handed to the controller. -/
def use (s : PoolLog) (p : BitVec 64) : PoolLog := { s with uses := p :: s.uses }

/-- `AllocMem`. -/
def allocMem (s : PoolLog) (size : BitVec 64) (alignment boundary : BitVec 32) :
    BitVec 64 × PoolLog :=
  let r := s.pool.allocMem size alignment boundary
  (r.1.getD nullptr, { s with pool := r.2, exhausted := s.exhausted || r.1.isNone })

/-- `AllocArray`. -/
def allocArray (s : PoolLog) (sizeofT numObj : BitVec 64) (alignment boundary : BitVec 32) :
    BitVec 64 × PoolLog :=
  s.allocMem (sizeofT * numObj) alignment boundary

/-! ## Rings -/

/-- `Ring::Initialize`: the error, and `buf_`. -/
def ringInitialize (s : PoolLog) (bufSize : BitVec 64) : Error × BitVec 64 × PoolLog :=
  let buf := s.allocArray (BitVec.ofNat 64 sizeofTRB) bufSize 64#32 0x10000#32
  if buf.1 = nullptr then (.kNoEnoughMemory, buf) else (.kSuccess, buf.1, buf.2.use buf.1)

/-- `EventRing::Initialize`, the part with the segment table. -/
def eventRingTable (s : PoolLog) (buf : BitVec 64) : Error × PoolLog :=
  let erst := s.allocArray sizeofEventRingSegmentTableEntry 1#64 64#32 0x10000#32
  if erst.1 = nullptr then (.kNoEnoughMemory, erst.2)
  else (.kSuccess, (erst.2.use erst.1).use buf)

/-- `EventRing::Initialize`. -/
def eventRingInitialize (s : PoolLog) (bufSize : BitVec 64) : Error × PoolLog :=
  let buf := s.allocArray (BitVec.ofNat 64 sizeofTRB) bufSize 64#32 0x10000#32
  if buf.1 = nullptr then (.kNoEnoughMemory, buf.2) else (buf.2.use buf.1).eventRingTable buf.1

/-- `AllocTransferRing`: the ring, and its `buf_`. The error of `Ring::Initialize` is dropped. -/
def allocTransferRing (s : PoolLog) (bufSize : BitVec 64) : BitVec 64 × BitVec 64 × PoolLog :=
  let tr := s.allocArray sizeofRing 1#64 64#32 4096#32
  if tr.1 ≠ nullptr then (tr.1, ((tr.2.use tr.1).ringInitialize bufSize).2)
  else (tr.1, nullptr, tr.2)

/-- The buffer of a new transfer ring is stored in an endpoint context. -/
def setTransferRing (s : PoolLog) : PoolLog :=
  let tr := s.allocTransferRing 32#64
  (tr.2.2.use tr.1).use tr.2.1

/-! ## `Controller::Initialize` -/

/-- `DeviceManager::Initialize`, the part with the device context array. -/
def devmgrContexts (s : PoolLog) (devices maxSlots : BitVec 64) : Error × BitVec 64 × PoolLog :=
  let contexts := s.allocArray sizeofPointer (maxSlots + 1#64) 64#32 4096#32
  if contexts.1 = nullptr then (.kNoEnoughMemory, contexts)
  else (.kSuccess, contexts.1, (contexts.2.use devices).use contexts.1)

/-- `DeviceManager::Initialize`: the error, and the device context array. -/
def devmgrInitialize (s : PoolLog) (maxSlots : BitVec 64) : Error × BitVec 64 × PoolLog :=
  let devices := s.allocArray sizeofPointer (maxSlots + 1#64) 0#32 0#32
  if devices.1 = nullptr then (.kNoEnoughMemory, nullptr, devices.2)
  else devices.2.devmgrContexts devices.1 maxSlots

/-- The number of scratchpad buffers in `HCSPARAMS2`. -/
def maxScratchpadBuffers (hcsparams2 : BitVec 32) : BitVec 16 :=
  (hcsparams2.extractLsb' 27 5).setWidth 16 ||| (hcsparams2.extractLsb' 21 5).setWidth 16 <<< 5

/-- A page, which is stored in the array of the scratchpad. -/
def scratchpadPage (s : PoolLog) (scratchpadBufArr : BitVec 64) : PoolLog :=
  let page := s.allocMem 4096#64 4096#32 4096#32
  (page.2.use scratchpadBufArr).use page.1

def scratchpadPages (s : PoolLog) (scratchpadBufArr : BitVec 64) : ℕ → PoolLog
  | 0 => s
  | n + 1 => (scratchpadPages s scratchpadBufArr n).scratchpadPage scratchpadBufArr

/-- The scratchpad is stored in the first entry of the device context array. -/
def scratchpad (s : PoolLog) (maxScratchpadBuffers : BitVec 16) : PoolLog :=
  if 0#16 < maxScratchpadBuffers then
    let scratchpadBufArr :=
      s.allocArray sizeofPointer (maxScratchpadBuffers.setWidth 64) 64#32 4096#32
    (scratchpadBufArr.2.scratchpadPages scratchpadBufArr.1 maxScratchpadBuffers.toNat).use
      scratchpadBufArr.1
  else
    s

/-- The command ring and the event ring: the error, and the buffer of the command ring. -/
def initializeRings (s : PoolLog) : Error × BitVec 64 × PoolLog :=
  let cr := s.ringInitialize 32#64
  if cr.1.failed then cr
  else
    let er := (cr.2.2.use cr.2.1).eventRingInitialize 32#64
    (er.1, cr.2.1, er.2)

/-- `Controller::Initialize`, with the buffer of the command ring before and after. -/
def controllerInitialize (s : PoolLog) (commandRing : BitVec 64) (hcsparams2 : BitVec 32) :
    Error × BitVec 64 × PoolLog :=
  let devmgr := s.devmgrInitialize (Controller.kDeviceSize.setWidth 64)
  if devmgr.1.failed then (devmgr.1, commandRing, devmgr.2.2)
  else
    ((devmgr.2.2.scratchpad (maxScratchpadBuffers hcsparams2)).use devmgr.2.1).initializeRings

/-! ## Devices -/

/-- `AllocDevice`, with the pointer of the slot: the new device is constructed in place. -/
def allocDevice (s : PoolLog) (sizeofDevice : BitVec 32) (device : BitVec 64) (slotId : BitVec 8) :
    BitVec 64 × PoolLog :=
  if Controller.kDeviceSize < slotId then (device, s)
  else if device ≠ nullptr then (device, s)
  else
    let device := s.allocArray (sizeofDevice.setWidth 64) 1#64 64#32 4096#32
    (device.1, device.2.use device.1)

/-- `FindBySlot`, with the pointer of the slot. -/
def findBySlot (device : BitVec 64) (slotId : BitVec 8) : BitVec 64 :=
  if Controller.kDeviceSize < slotId then nullptr else device

/-- `AddressDevice`, with the pointer of the slot before and after. The contexts of the device are
handed over, and the command is pushed. -/
def addressDevice (s : PoolLog) (commandRing : BitVec 64) (sizeofDevice : BitVec 32)
    (device : BitVec 64) (slotId : BitVec 8) : Error × BitVec 64 × PoolLog :=
  let slot := s.allocDevice sizeofDevice device slotId
  let device := findBySlot slot.1 slotId
  if device = nullptr then (.kInvalidSlotID, slot)
  else (.kSuccess, slot.1, (slot.2.setTransferRing.use device).use commandRing)

/-- The rings of some endpoints. -/
def endpointRings (s : PoolLog) : ℕ → PoolLog
  | 0 => s
  | n + 1 => (endpointRings s n).setTransferRing

/-- `ConfigureEndpoints`, on a port with some speed. -/
def configureEndpoints (s : PoolLog) (commandRing : BitVec 64) (portSpeed numEpConfigs : ℕ) :
    Error × PoolLog :=
  if portSpeed = 0 ∨ kSuperSpeedPlus < portSpeed then (.kUnknownXHCISpeedID, s)
  else (.kSuccess, (s.endpointRings numEpConfigs).use commandRing)

end PoolLog

/-! ## Runs -/

/-- The pool, `devices_` and the buffer of the command ring between the calls. -/
structure PoolState where
  pool : MemoryPool
  devices : BitVec 8 → BitVec 64
  commandRing : BitVec 64

/-- A call that takes something from the pool or pushes a command: one of the three,
`EnableSlot`, or the `operator new` of a class driver. -/
inductive PoolCall where
  | controllerInitialize (hcsparams2 : BitVec 32)
  | enableSlot
  | addressDevice (slotId : BitVec 8)
  | configureEndpoints (portSpeed numEpConfigs : ℕ)
  | newClassDriver (sizeofDriver : BitVec 32)

namespace PoolCall

variable (sizeofDevice : BitVec 32)

/-- The error of a call, the pointers it used, and the state behind it. The object of a class
driver is not one of those pointers. -/
def perform (s : PoolState) : PoolCall → Error × PoolLog × PoolState
  | controllerInitialize hcsparams2 =>
    let r := (PoolLog.start s.pool).controllerInitialize s.commandRing hcsparams2
    (r.1, r.2.2, ⟨r.2.2.pool, fun _ => nullptr, r.2.1⟩)
  | enableSlot => (.kSuccess, (PoolLog.start s.pool).use s.commandRing, s)
  | addressDevice slotId =>
    let r := (PoolLog.start s.pool).addressDevice s.commandRing sizeofDevice (s.devices slotId)
      slotId
    (r.1, r.2.2, { s with
      pool := r.2.2.pool
      devices := Function.update s.devices slotId r.2.1 })
  | configureEndpoints portSpeed numEpConfigs =>
    let r := (PoolLog.start s.pool).configureEndpoints s.commandRing portSpeed numEpConfigs
    (r.1, r.2, { s with pool := r.2.pool })
  | newClassDriver sizeofDriver =>
    let pool := (s.pool.allocMem (sizeofDriver.setWidth 64) 0#32 0#32).2
    (.kSuccess, .start pool, { s with pool := pool })

def step (s : PoolState) (call : PoolCall) : Option PoolState :=
  some (call.perform sizeofDevice s).2.2

end PoolCall

end TommyOS.Usb
