import TommyOS.BootLoader.Firmware
import TommyOS.Graphics.Graphics

/-!
# The boot loader

`UefiMain` from its start to the call of the kernel, as a program whose accesses are its calls of
the firmware. The variables of the program are its own, and so is the memory that it sees: the
buffer on its stack and what it was given.
-/

namespace TommyOS.BootLoader

open ByteRecords DeviceProgram

variable {F : Type} (fw : Firmware F)

/-! ## The functions of the boot loader -/

/-- How `UefiMain` ends: in the kernel, with its two arguments and the memory, or in `Halt` with the
last message and its argument. -/
inductive Outcome where
  | entered (entryAddr : ℕ) (config : FrameBufferConfig) (memmap : MemoryMap) (memory : Memory)
  | halted (message : String) (argument : BitVec 64)

/-- A loop without end. -/
def hang {α : Type} : DeviceProgram (BootState F) α → DeviceProgram (BootState F) α :=
  await fun _ => false

/-- `Print`. What is printed is left out, but for the last message. -/
def print : DeviceProgram (BootState F) PUnit := do
  let _ ← fw.call .print

/-- `GetMemorymap`, with the memory that the firmware writes the map to. -/
def getMemorymap (map : MemoryMap) (memory : Memory) :
    DeviceProgram (BootState F) (EfiStatus × MemoryMap × Memory) :=
  if map.buffer = 0 then
    pure (EFI_BUFFER_TOO_SMALL, map, memory)
  else
    let map := { map with mapSize := map.bufferSize }
    exchange (fw.called (.getMemoryMap map.mapSize)) fun s =>
      (fw.status (.getMemoryMap map.mapSize) s.firmware, fw.memoryMapAnswer s.firmware map memory)

/-- `OpenRootDir`: the image, its device, and the volume. -/
def openRootDir : DeviceProgram (BootState F) EfiStatus := do
  let status ← fw.call .openProtocol
  if efiError status then
    pure status
  else
    let status ← fw.call .openProtocol
    if efiError status then pure status else fw.call .openVolume

/-- The loop of `SaveMemoryMap`. -/
def saveDescriptors : List ℕ → DeviceProgram (BootState F) EfiStatus
  | [] => pure EFI_SUCCESS
  | _ :: iters => do
    let status ← fw.call .write
    if efiError status then pure status else saveDescriptors iters

/-- `SaveMemoryMap`: a header line, then a line for each descriptor. -/
def saveMemoryMap (map : MemoryMap) : DeviceProgram (BootState F) EfiStatus := do
  let status ← fw.call .write
  if efiError status then
    pure status
  else do
    print fw
    match map.iterations with
    | none => hang (pure EFI_SUCCESS)
    | some iters => saveDescriptors fw iters

/-- `ExitBootServices`, and once more with a new map when the first map was out of date. -/
def exitBootServicesWithRetry (memmap : MemoryMap) (memory : Memory) :
    DeviceProgram (BootState F) (EfiStatus × MemoryMap × Memory) := do
  let status ← fw.call (.exitBootServices memmap.mapKey)
  if !efiError status then
    pure (status, memmap, memory)
  else
    let (status, memmap, memory) ← getMemorymap fw memmap memory
    if efiError status then do
      print fw
      pure (status, memmap, memory)
    else
      let status ← fw.call (.exitBootServices memmap.mapKey)
      pure (status, memmap, memory)

/-- `OpenGOP`: the first handle is opened, and the buffer with the handles given back. -/
def openGOP : DeviceProgram (BootState F) EfiStatus := do
  let (status, gopHandles) ← fw.callBuffer .locateHandleBuffer
  if efiError status then
    pure status
  else
    let status ← fw.call .openProtocol
    if efiError status then
      pure status
    else
      let _ ← fw.call (.freePool gopHandles)
      pure EFI_SUCCESS

/-- `if (EFI_ERROR(status)) { Print(...); Halt(); }` in front of the rest. -/
def haltIfError (message : String) (status : EfiStatus)
    (next : DeviceProgram (BootState F) Outcome) : DeviceProgram (BootState F) Outcome :=
  if efiError status then do
    print fw
    pure (.halted message status)
  else
    next

/-! ## `UefiMain` -/

/-- The `switch` over the pixel format. -/
def pixelFormatOf : EfiPixelFormat → Option PixelFormat
  | .blueGreenRedReserved8BitPerColor => some .kPixelBGRResv8BitPerColor
  | .redGreenBlueReserved8BitPerColor => some .kPixelRGBResv8BitPerColor
  | _ => none

/-- `FrameBufferConfig` from the mode of the graphics output. -/
def GopMode.config (mode : GopMode) (format : PixelFormat) : FrameBufferConfig where
  frameBuffer := mode.frameBufferBase
  pixelsPerScanLine := mode.pixelsPerScanLine
  horizontalResolution := mode.horizontalResolution
  verticalResolution := mode.verticalResolution
  pixelFormat := format

/-- The file with the memory map, which may be missing. -/
def saveMemmapFile (memmap : MemoryMap) (next : DeviceProgram (BootState F) Outcome) :
    DeviceProgram (BootState F) Outcome := do
  let status ← fw.call .open
  if efiError status then do
    print fw
    print fw
    next
  else
    let status ← saveMemoryMap fw memmap
    haltIfError fw "failed to save memory map: %r\n" status do
      let status ← fw.call .close
      haltIfError fw "failed to close memory map: %r\n" status next

/-- The frame buffer. -/
def openFrameBuffer (next : FrameBufferConfig → DeviceProgram (BootState F) Outcome) :
    DeviceProgram (BootState F) Outcome := do
  let status ← openGOP fw
  haltIfError fw "failed to open GOP: %r\n" status do
    let mode ← DeviceProgram.read fun s : BootState F => fw.mode s.firmware
    match pixelFormatOf mode.pixelFormat with
    | none => do
      print fw
      pure (.halted "Unimplemented pixel format: %d\n" (BitVec.ofNat 64 mode.pixelFormat.ctorIdx))
    | some format => do
      print fw
      print fw
      next (mode.config format)

/-- The end of boot services and the call of the kernel. -/
def enterKernel (config : FrameBufferConfig) (memmap : MemoryMap) (memory : Memory)
    (kernelFirstAddr : ℕ) : DeviceProgram (BootState F) Outcome := do
  let (status, memmap, memory) ← exitBootServicesWithRetry fw memmap memory
  haltIfError fw "failed to exit boot services: %r\n" status do
    pure (.entered (readLE memory (kernelFirstAddr + 24) 8) config memmap memory)

/-- `kernel_file->GetInfo`: the status and `FileSize`. -/
def getInfo : DeviceProgram (BootState F) (EfiStatus × ℕ) :=
  exchange (fw.called .getInfo) fun s =>
    (fw.status .getInfo s.firmware, (fw.kernelFile s.firmware).length)

/-- `kernel_file->Read`. -/
def readFile (size : ℕ) : DeviceProgram (BootState F) (EfiStatus × List (BitVec 8)) :=
  exchange (fw.called (.read size)) fun s =>
    (fw.status (.read size) s.firmware, (fw.kernelFile s.firmware).take size)

/-- The kernel file is read and its segments are put into place. -/
def loadKernel (memory : Memory) (next : Memory → ℕ → DeviceProgram (BootState F) Outcome) :
    DeviceProgram (BootState F) Outcome := do
  let status ← fw.call .open
  haltIfError fw "failed to open file '\\kernel.elf': %r\n" status do
    let (status, kernelFileSize) ← getInfo fw
    haltIfError fw "failed to get file information: %r\n" status do
      let (status, kernelTempBuffer) ← fw.callBuffer (.allocatePool kernelFileSize)
      haltIfError fw "failed to allocate pool: %r\n" status do
        let (status, bytes) ← readFile fw kernelFileSize
        haltIfError fw "error: %r" status do
          let memory := place memory kernelTempBuffer bytes
          let range := calcLoadAddressRange memory kernelTempBuffer
          print fw
          let status ← fw.call (.allocatePages range.1 (numPages range))
          haltIfError fw "failed to allocate pages: %r\n" status do
            let memory := (copyLoadSegments memory kernelTempBuffer).memory
            print fw
            let status ← fw.call (.freePool kernelTempBuffer)
            haltIfError fw "failed to free pool: %r\n" status do
              next memory range.1

/-- `sizeof(memmap_buf)`. -/
def kMemmapBufSize : ℕ := 4096 * 4

/-- `UefiMain`, with the address of `memmap_buf` and the memory at its start. -/
def uefiMain (memmapBuf : ℕ) (memory : Memory) : DeviceProgram (BootState F) Outcome := do
  print fw
  let (status, memmap, memory) ← getMemorymap fw ⟨kMemmapBufSize, memmapBuf, 0, 0, 0, 0⟩ memory
  haltIfError fw "failed to get memory map: %r\n" status do
    let status ← openRootDir fw
    haltIfError fw "failed to open root directory: %r\n" status do
      saveMemmapFile fw memmap do
        openFrameBuffer fw fun config =>
          loadKernel fw memory fun memory kernelFirstAddr =>
            enterKernel fw config memmap memory kernelFirstAddr

end TommyOS.BootLoader
