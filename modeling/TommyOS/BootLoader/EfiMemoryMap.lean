import TommyOS.BootLoader.KernelLoaderTheorems
import TommyOS.Lib.ByteRecords
import TommyOS.MemoryMap.MemoryMap

/-!
# The memory map in its buffer

The boot loader has the firmware write its memory map into a buffer and hands the buffer to the
kernel. Both go over it in steps of `descriptor_size`, which may be more than the fields that they
know.
-/

namespace TommyOS.BootLoader

open ByteRecords

/-- `EFI_MEMORY_DESCRIPTOR` as it lies in memory: there is padding after the type, and a later
version of the firmware may have more behind the attribute. -/
structure EfiMemoryDescriptor where
  type : BitVec 32
  padding : BitVec 32
  physicalStart : BitVec 64
  virtualStart : BitVec 64
  numberOfPages : BitVec 64
  attributes : BitVec 64
  behind : List (BitVec 8)
deriving DecidableEq

/-- Its bytes, each field little-endian. -/
def EfiMemoryDescriptor.encode (desc : EfiMemoryDescriptor) : List (BitVec 8) :=
  leBytes 4 desc.type.toNat ++ (leBytes 4 desc.padding.toNat ++
    (leBytes 8 desc.physicalStart.toNat ++ (leBytes 8 desc.virtualStart.toNat ++
      (leBytes 8 desc.numberOfPages.toNat ++ (leBytes 8 desc.attributes.toNat ++ desc.behind)))))

/-- What the kernel makes of a descriptor. -/
def EfiMemoryDescriptor.view (desc : EfiMemoryDescriptor) : MemoryDescriptor where
  type := desc.type.toNat
  physicalStart := desc.physicalStart.toNat
  numberOfPages := desc.numberOfPages.toNat

/-- `MemoryMap`. -/
structure MemoryMap where
  bufferSize : ℕ
  buffer : ℕ
  mapSize : ℕ
  mapKey : ℕ
  descriptorSize : ℕ
  descriptorVersion : ℕ

/-- The addresses that `iter` takes in the loops over the buffer. It has fewer than `2 ^ 64`
values below the end, so a loop of that many iterations has no end. -/
def MemoryMap.iterations (map : MemoryMap) : Option (List ℕ) :=
  strideLoop (fun iter stride => uint64 (iter + stride)) map.descriptorSize
    (uint64 (map.buffer + map.mapSize)) (2 ^ 64) map.buffer

/-- The fields of `MemoryDescriptor` at an address. -/
def readMemoryDescriptor (mem : Memory) (iter : ℕ) : MemoryDescriptor where
  type := readLE mem iter 4
  physicalStart := readLE mem (iter + 8) 8
  numberOfPages := readLE mem (iter + 24) 8

/-- The descriptors that the loop of `KernelMainNewStack` reads; `none` if it does not end. The
loop does not write to the buffer. -/
def MemoryMap.descriptors (map : MemoryMap) (mem : Memory) : Option (List MemoryDescriptor) :=
  map.iterations.map fun iters => iters.map (readMemoryDescriptor mem)

/-! ## What is written is read -/

variable {mem : Memory}

/-- A number in memory is that of its bytes, where the address does not wrap. -/
theorem readLE_of_holds {addr : ℕ} {bs : List (BitVec 8)} (h : Holds mem addr bs)
    (hend : addr + bs.length ≤ 2 ^ 64) : readLE mem addr bs.length = ofLE bs := by
  induction bs generalizing addr with
  | nil => rfl
  | cons b bs ih =>
    rw [List.length_cons] at hend ⊢
    rw [readLE, uint64_of_lt (by omega), h.1, ih h.2 (by omega), ofLE]

/-- A number that was written at an address. -/
theorem readLE_leBytes {addr n v : ℕ} (h : Holds mem addr (leBytes n v)) (hv : v < 256 ^ n)
    (hend : addr + n ≤ 2 ^ 64) : readLE mem addr n = v := by
  have hread := readLE_of_holds h (by rw [length_leBytes]; exact hend)
  rw [length_leBytes, ofLE_leBytes hv] at hread
  exact hread

namespace EfiMemoryDescriptor

/-- The fields that the boot loader knows take 40 bytes. -/
theorem length_encode (desc : EfiMemoryDescriptor) :
    desc.encode.length = 40 + desc.behind.length := by
  unfold encode
  simp only [List.length_append, length_leBytes]
  omega

/-- The kernel reads its three fields from where the firmware wrote them. -/
theorem readMemoryDescriptor_encode (desc : EfiMemoryDescriptor) {iter : ℕ}
    (h : Holds mem iter desc.encode) (hend : iter + desc.encode.length ≤ 2 ^ 64) :
    readMemoryDescriptor mem iter = desc.view := by
  rw [length_encode] at hend
  unfold encode at h
  simp only [holds_append, length_leBytes, Nat.add_assoc, Nat.reduceAdd] at h
  obtain ⟨htype, -, hstart, -, hpages, -, -⟩ := h
  unfold readMemoryDescriptor view
  rw [readLE_leBytes htype (Nat.lt_of_lt_of_le desc.type.isLt (by decide)) (by omega),
    readLE_leBytes hstart (Nat.lt_of_lt_of_le desc.physicalStart.isLt (by decide)) (by omega),
    readLE_leBytes hpages (Nat.lt_of_lt_of_le desc.numberOfPages.isLt (by decide)) (by omega)]

end EfiMemoryDescriptor

/-- The bytes of a map. -/
abbrev mapBytes (descriptors : List EfiMemoryDescriptor) : List (BitVec 8) :=
  table EfiMemoryDescriptor.encode descriptors

/-- The map of a buffer is `descriptors`, each of `descriptor_size` bytes. -/
structure MemoryMap.Describes (map : MemoryMap) (descriptors : List EfiMemoryDescriptor) :
    Prop where
  size : ∀ desc ∈ descriptors, desc.encode.length = map.descriptorSize
  descriptorSize_pos : 0 < map.descriptorSize
  mapSize : map.mapSize = (mapBytes descriptors).length
  noWrap : map.buffer + map.mapSize < 2 ^ 64

section Describes

variable {map : MemoryMap} {descriptors : List EfiMemoryDescriptor}
  (hmap : map.Describes descriptors)

include hmap

/-- The end of the loop is the end of the table. -/
theorem MemoryMap.Describes.end_eq :
    uint64 (map.buffer + map.mapSize) = map.buffer + map.descriptorSize * descriptors.length := by
  rw [uint64_of_lt hmap.noWrap, hmap.mapSize, length_table hmap.size]

theorem MemoryMap.Describes.lt :
    map.buffer + map.descriptorSize * descriptors.length < 2 ^ 64 := by
  have hlt := hmap.noWrap
  rw [hmap.mapSize, length_table hmap.size] at hlt
  exact hlt

/-- A table in memory has an end. -/
theorem MemoryMap.Describes.length_lt : descriptors.length < 2 ^ 64 := by
  have hlt := hmap.lt
  have hle := Nat.le_mul_of_pos_left descriptors.length hmap.descriptorSize_pos
  omega

/-- The kernel reads the descriptors that were written, whatever the size of a descriptor. -/
theorem MemoryMap.Describes.descriptors_eq (h : Holds mem map.buffer (mapBytes descriptors)) :
    map.descriptors mem = some (descriptors.map EfiMemoryDescriptor.view) := by
  unfold MemoryMap.descriptors MemoryMap.iterations
  rw [hmap.end_eq]
  -- a step that stays below the end does not wrap
  apply strideLoop_table (2 ^ 64 - 1) hmap.descriptorSize_pos ?_ ?_ hmap.size h ?_ hmap.length_lt
  · intro iter hiter
    exact uint64_of_lt (by omega)
  · intro desc iter hend hdesc
    exact desc.readMemoryDescriptor_encode hdesc (by omega)
  · have := hmap.lt
    omega

end Describes

end TommyOS.BootLoader
