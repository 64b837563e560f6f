import TommyOS.BootLoader.EfiMemoryMap
import TommyOS.Lib.DeviceProgram

/-!
# The firmware

UEFI is not part of the repository, so the boot loader runs beside any firmware that keeps the
rules below, which are what UEFI says of boot services. A call may do more than it is asked for:
most of all, it may change the memory map, as the firmware may on its own between two calls.
-/

namespace TommyOS.BootLoader

open ByteRecords DeviceProgram Relation

/-- `EFI_STATUS`: the highest bit says that a call has failed. -/
abbrev EfiStatus := BitVec 64

def EFI_SUCCESS : EfiStatus := 0
def EFI_INVALID_PARAMETER : EfiStatus := 0x8000000000000002#64
def EFI_BUFFER_TOO_SMALL : EfiStatus := 0x8000000000000005#64
def EFI_OUT_OF_RESOURCES : EfiStatus := 0x8000000000000009#64
def EFI_NOT_FOUND : EfiStatus := 0x800000000000000e#64

/-- `EFI_ERROR`. -/
def efiError (status : EfiStatus) : Bool := status.msb

/-! ## Calls -/

/-- What is called, with the arguments that matter; `read` and `write` are of files. -/
inductive BootCall where
  | print | openProtocol | openVolume | open | write | close | getInfo | locateHandleBuffer
  | read (size : ℕ)
  | getMemoryMap (mapSize : ℕ)
  | allocatePool (size : ℕ)
  | allocatePages (addr pages : ℕ)
  | freePool (addr : ℕ)
  | exitBootServices (mapKey : ℕ)
deriving DecidableEq

namespace BootCall

/-- The call that ends boot services. -/
def isExit : BootCall → Bool
  | exitBootServices _ => true
  | _ => false

/-- The memory allocation services. -/
def isMemoryService : BootCall → Bool
  | getMemoryMap _ => true
  | allocatePool _ => true
  | allocatePages _ _ => true
  | freePool _ => true
  | _ => false

end BootCall

/-- The calls that were made, in their order. -/
abbrev CallLog := List (BootCall × EfiStatus)

/-- How often `ExitBootServices` was refused. -/
def refusals (calls : CallLog) : ℕ := calls.countP fun call => call.1.isExit && efiError call.2

/-- A call behind another one. A refused `ExitBootServices` may have shut down all but the memory
allocation services. -/
def Orderly (earlier later : BootCall × EfiStatus) : Prop :=
  earlier.1.isExit = true → later.1.isExit = true ∨ later.1.isMemoryService = true

/-! ## The parameter -/

/-- `EFI_GRAPHICS_PIXEL_FORMAT`. -/
inductive EfiPixelFormat where
  | redGreenBlueReserved8BitPerColor
  | blueGreenRedReserved8BitPerColor
  | bitMask
  | bltOnly
deriving DecidableEq

/-- The fields of `gop->Mode` that are used. -/
structure GopMode where
  frameBufferBase : ℕ
  pixelsPerScanLine : BitVec 32
  horizontalResolution : BitVec 32
  verticalResolution : BitVec 32
  pixelFormat : EfiPixelFormat

/-- A firmware with the states `F`: what it has to report in a state, what it answers to a call,
the buffer that it gives, the variables and the memory of the caller of `GetMemoryMap` afterwards
and the state that it is in then, and what it does on its own. `inUse` are the regions, as address
and size, that belong to the boot loader. -/
structure Firmware (F : Type) where
  memoryMap : F → List EfiMemoryDescriptor
  mapKey : F → ℕ
  descriptorSize : F → ℕ
  descriptorVersion : F → ℕ
  mode : F → GopMode
  kernelFile : F → List (BitVec 8)
  inUse : F → List (ℕ × ℕ)
  exited : F → Bool
  status : BootCall → F → EfiStatus
  buffer : BootCall → F → ℕ
  memoryMapAnswer : F → MemoryMap → Memory → MemoryMap × Memory
  next : BootCall → F → F
  background : F → F → Prop

namespace Firmware

variable {F : Type} (fw : Firmware F)

/-- The firmware comes from one state to another, by calls and on its own. -/
def Evolves : F → F → Prop :=
  ReflTransGen fun s t => fw.background s t ∨ ∃ c, t = fw.next c s

/-- A region is apart from what belongs to the boot loader. -/
def IsFree (s : F) (addr size : ℕ) : Prop :=
  ∀ region ∈ fw.inUse s, addr + size ≤ region.1 ∨ region.1 + region.2 ≤ addr

/-- What UEFI says of boot services, as far as the boot loader relies on it. -/
structure Rules : Prop where
  /-- The key stands for the map: it changes with the map. -/
  mapKey : ∀ s t, fw.Evolves s t → fw.mapKey t = fw.mapKey s → fw.memoryMap t = fw.memoryMap s
  descriptorSize : ∀ s, ∀ desc ∈ fw.memoryMap s, desc.encode.length = fw.descriptorSize s
  descriptorSize_pos : ∀ s, 0 < fw.descriptorSize s
  /-- Nobody else writes the kernel file or sets the mode of the display. -/
  kernelFile : ∀ s t, fw.Evolves s t → fw.kernelFile t = fw.kernelFile s
  mode : ∀ s t, fw.Evolves s t → fw.mode t = fw.mode s
  /-- Boot services are there until they are ended, and then the firmware leaves the map alone. -/
  exited : ∀ s t, fw.background s t → fw.exited t = fw.exited s
  exited_next : ∀ c s, c.isExit = false → fw.exited (fw.next c s) = fw.exited s
  afterExit : ∀ s t, fw.exited s = true → fw.background s t → fw.mapKey t = fw.mapKey s
  /-- A region belongs to the boot loader until it gives it back. -/
  inUse : ∀ s t, fw.background s t → ∀ region ∈ fw.inUse s, region ∈ fw.inUse t
  inUse_next : ∀ c s, ∀ region ∈ fw.inUse s, c ≠ .freePool region.1 →
    region ∈ fw.inUse (fw.next c s)
  getMemoryMap : ∀ size s, fw.exited s = false → fw.status (.getMemoryMap size) s =
    if size < (mapBytes (fw.memoryMap s)).length then EFI_BUFFER_TOO_SMALL else EFI_SUCCESS
  memoryMapAnswer : ∀ s map memory, efiError (fw.status (.getMemoryMap map.mapSize) s) = false →
    fw.memoryMapAnswer s map memory =
      ({ map with
          mapSize := (mapBytes (fw.memoryMap s)).length
          mapKey := fw.mapKey s
          descriptorSize := fw.descriptorSize s
          descriptorVersion := fw.descriptorVersion s },
        place memory map.buffer (mapBytes (fw.memoryMap s)))
  mapKey_getMemoryMap : ∀ size s, fw.exited s = false →
    fw.mapKey (fw.next (.getMemoryMap size) s) = fw.mapKey s
  /-- A handle has eight bytes, and there is one at least. -/
  locateHandleBuffer : ∀ s, efiError (fw.status .locateHandleBuffer s) = false →
    fw.IsFree s (fw.buffer .locateHandleBuffer s) 8
  allocatePool : ∀ size s, efiError (fw.status (.allocatePool size) s) = false →
    fw.IsFree s (fw.buffer (.allocatePool size) s) size ∧
      fw.buffer (.allocatePool size) s + size ≤ 2 ^ 64 ∧
      (fw.buffer (.allocatePool size) s, size) ∈ fw.inUse (fw.next (.allocatePool size) s)
  allocatePages : ∀ addr pages s, efiError (fw.status (.allocatePages addr pages) s) = false →
    fw.IsFree s addr (pages * 0x1000)
  exit : ∀ s, fw.exited s = false →
    fw.status (.exitBootServices (fw.mapKey s)) s = EFI_SUCCESS ∧
      fw.exited (fw.next (.exitBootServices (fw.mapKey s)) s) = true ∧
      fw.mapKey (fw.next (.exitBootServices (fw.mapKey s)) s) = fw.mapKey s
  exit_refused : ∀ key s, fw.exited s = false → key ≠ fw.mapKey s →
    fw.status (.exitBootServices key) s = EFI_INVALID_PARAMETER ∧
      fw.exited (fw.next (.exitBootServices key) s) = false

end Firmware

/-! ## The calls of the boot loader -/

/-- The firmware beside the boot loader, with the calls that were made. -/
structure BootState (F : Type) where
  firmware : F
  calls : CallLog

namespace Firmware

variable {F : Type} (fw : Firmware F)

/-- The state behind a call, which is logged with its answer. -/
def called (c : BootCall) (s : BootState F) : BootState F :=
  ⟨fw.next c s.firmware, s.calls ++ [(c, fw.status c s.firmware)]⟩

/-- A call of which only the status matters. -/
def call (c : BootCall) : DeviceProgram (BootState F) EfiStatus :=
  exchange (fw.called c) fun s => fw.status c s.firmware

/-- A call that gives a buffer. -/
def callBuffer (c : BootCall) : DeviceProgram (BootState F) (EfiStatus × ℕ) :=
  exchange (fw.called c) fun s => (fw.status c s.firmware, fw.buffer c s.firmware)

end Firmware

/-- What the firmware does on its own. -/
def BootStep {F : Type} (fw : Firmware F) (s t : BootState F) : Prop :=
  fw.background s.firmware t.firmware ∧ t.calls = s.calls

/-- The same, for a firmware that stops its timers when `ExitBootServices` is called first: the
memory map does not change after a refusal. -/
def QuietStep {F : Type} (fw : Firmware F) (s t : BootState F) : Prop :=
  BootStep fw s t ∧ (0 < refusals s.calls → fw.mapKey t.firmware = fw.mapKey s.firmware)

end TommyOS.BootLoader
