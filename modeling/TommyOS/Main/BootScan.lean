import TommyOS.MemoryMap.MemoryMap

/-!
# The memory map scan of `KernelMainNewStack`

The loop that turns the memory map into the initial state of the frame allocator: gaps
between regions and regions of other types are marked as allocated, and the search range
ends where the last available region does. As in the allocator, `none` is an access past
`alloc_map_`.
-/

namespace TommyOS

open BitmapMemoryManager

/-- The variables the loop changes: `available_end` and the manager. -/
structure ScanState where
  availableEnd : ℕ
  memoryManager : BitmapMemoryManager

/-- The first half of the loop body: the gap in front of a region is not usable. -/
def markGap (st : ScanState) (desc : MemoryDescriptor) : Option BitmapMemoryManager :=
  if st.availableEnd < desc.physicalStart then
    st.memoryManager.markAllocated (st.availableEnd / kBytesPerFrame)
      ((desc.physicalStart - st.availableEnd) / kBytesPerFrame)
  else
    some st.memoryManager

/-- The loop body. -/
def scanDescriptor (st : ScanState) (desc : MemoryDescriptor) : Option ScanState := do
  let memoryManager ← markGap st desc
  if isAvailable desc.type then
    some { availableEnd := desc.physicalEnd, memoryManager := memoryManager }
  else
    let memoryManager ← memoryManager.markAllocated (desc.physicalStart / kBytesPerFrame)
      (desc.byteCount / kBytesPerFrame)
    some { availableEnd := st.availableEnd, memoryManager := memoryManager }

/-- The loop over the descriptors, from the fresh manager. -/
def scanLoop (descriptors : List MemoryDescriptor) : Option ScanState :=
  descriptors.foldlM scanDescriptor { availableEnd := 0, memoryManager := .new }

/-- The scan and the `SetMemoryRange` after it. -/
def scanMemoryMap (descriptors : List MemoryDescriptor) : Option BitmapMemoryManager :=
  (scanLoop descriptors).map fun st =>
    st.memoryManager.setMemoryRange 1 (st.availableEnd / kBytesPerFrame)

end TommyOS
