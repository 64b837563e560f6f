import TommyOS.MemoryManager.BitmapMemoryManager

/-!
# The UEFI memory map

Descriptors as the boot loader passes them on, with the fields the kernel reads, and the
types whose memory it may use. A `UefiMemoryMap` is a list of descriptors of the kind UEFI
promises: every region starts on a page boundary and ends inside the 64-bit address space.
-/

namespace TommyOS

/-- `MemoryType`, in the order of its enumerators. -/
inductive MemoryType where
  | kEfiReservedMemoryType
  | kEfiLoaderCode
  | kEfiLoaderData
  | kEfiBootServicesCode
  | kEfiBootServicesData
  | kEfiRuntimeServicesCode
  | kEfiRuntimeServicesData
  | kEfiConventionalMemory
  | kEfiUnusableMemory
  | kEfiACPIReclaimMemory
  | kEfiACPIMemoryNVS
  | kEfiMemoryMappedIO
  | kEfiMemoryMappedIOPortSpace
  | kEfiPalCode
  | kEfiPersistentMemory
  | kEfiMaxMemoryType
deriving DecidableEq, Repr

/-- The value of an enumerator, which is its position. -/
def MemoryType.value (t : MemoryType) : ℕ := t.ctorIdx

/-- `IsAvailable`. A descriptor's `type` is an arbitrary 32-bit number that the source
casts to `MemoryType`; the comparisons are those of the numbers. -/
def isAvailable (memoryType : ℕ) : Bool :=
  memoryType == MemoryType.kEfiBootServicesCode.value ||
    memoryType == MemoryType.kEfiBootServicesData.value ||
    memoryType == MemoryType.kEfiConventionalMemory.value

def kUEFIPageSize : ℕ := 4096

/-- `MemoryDescriptor`. -/
structure MemoryDescriptor where
  type : ℕ
  physicalStart : ℕ
  numberOfPages : ℕ
deriving DecidableEq, Repr

namespace MemoryDescriptor

/-- `desc->number_of_pages * kUEFIPageSize`. -/
def byteCount (desc : MemoryDescriptor) : ℕ := sizeT (desc.numberOfPages * kUEFIPageSize)

/-- `physical_end`. -/
def physicalEnd (desc : MemoryDescriptor) : ℕ := sizeT (desc.physicalStart + desc.byteCount)

/-- The first frame of the region. -/
def startFrame (desc : MemoryDescriptor) : ℕ := desc.physicalStart / kUEFIPageSize

/-- The frame after the last one of the region. -/
def endFrame (desc : MemoryDescriptor) : ℕ := desc.startFrame + desc.numberOfPages

/-- The frames of the region. -/
def frames (desc : MemoryDescriptor) : Set ℕ := {f | desc.startFrame ≤ f ∧ f < desc.endFrame}

/-- The region starts on a page boundary and ends inside the 64-bit address space. -/
structure WellFormed (desc : MemoryDescriptor) : Prop where
  aligned : kUEFIPageSize ∣ desc.physicalStart
  noWrap : desc.physicalStart + desc.numberOfPages * kUEFIPageSize < 2 ^ 64

instance (desc : MemoryDescriptor) : Decidable desc.WellFormed :=
  decidable_of_iff (kUEFIPageSize ∣ desc.physicalStart ∧
      desc.physicalStart + desc.numberOfPages * kUEFIPageSize < 2 ^ 64)
    ⟨fun h => ⟨h.1, h.2⟩, fun h => ⟨h.aligned, h.noWrap⟩⟩

end MemoryDescriptor

/-- A list of well-formed descriptors. -/
structure UefiMemoryMap where
  descriptors : List MemoryDescriptor
  wellFormed : ∀ desc ∈ descriptors, desc.WellFormed

namespace MemoryDescriptor

variable {desc : MemoryDescriptor}

theorem WellFormed.physicalStart_eq (h : desc.WellFormed) :
    desc.physicalStart = desc.startFrame * kUEFIPageSize :=
  (Nat.div_mul_cancel h.aligned).symm

theorem WellFormed.byteCount_eq (h : desc.WellFormed) :
    desc.byteCount = desc.numberOfPages * kUEFIPageSize :=
  Nat.mod_eq_of_lt (Nat.lt_of_le_of_lt (Nat.le_add_left _ _) h.noWrap)

theorem WellFormed.physicalEnd_eq (h : desc.WellFormed) :
    desc.physicalEnd = desc.endFrame * kUEFIPageSize := by
  have hsum : desc.physicalEnd = desc.physicalStart + desc.numberOfPages * kUEFIPageSize := by
    rw [physicalEnd, h.byteCount_eq]
    exact Nat.mod_eq_of_lt h.noWrap
  rw [hsum, endFrame, Nat.add_mul, ← h.physicalStart_eq]

/-- Frame numbers are far from the end of a `size_t`. -/
theorem WellFormed.endFrame_lt (h : desc.WellFormed) : desc.endFrame < 2 ^ 52 := by
  have hlt := h.noWrap
  have hstart := h.physicalStart_eq
  simp only [kUEFIPageSize] at hlt hstart
  simp only [endFrame]
  omega

theorem startFrame_le_endFrame (desc : MemoryDescriptor) : desc.startFrame ≤ desc.endFrame :=
  Nat.le_add_right _ _

theorem mem_frames {f : ℕ} : f ∈ desc.frames ↔ desc.startFrame ≤ f ∧ f < desc.endFrame :=
  Iff.rfl

end MemoryDescriptor

end TommyOS
