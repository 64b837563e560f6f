import TommyOS.Lib.X86Descriptors

/-!
# `segment`: the global descriptor table
-/

namespace TommyOS

/-- `x86_descriptor.hpp`. -/
inductive DescriptorType where
  | kUpper8Bytes
  | kLDT
  | kTSSAvailable
  | kTSSBusy
  | kCallGate
  | kInterruptGate
  | kTrapGate
  | kReadWrite
  | kExecuteRead
deriving DecidableEq

/-- The value of the enumerator, which has room in a bit-field of 4 bits. -/
def DescriptorType.value : DescriptorType → BitVec 4
  | .kUpper8Bytes => 0#4
  | .kLDT => 2#4
  | .kTSSAvailable => 9#4
  | .kTSSBusy => 11#4
  | .kCallGate => 12#4
  | .kInterruptGate => 14#4
  | .kTrapGate => 15#4
  | .kReadWrite => 2#4
  | .kExecuteRead => 10#4

/-- The union over the word `data`. -/
structure SegmentDescriptor where
  data : BitVec 64
deriving DecidableEq

namespace SegmentDescriptor

/-- A store to the bit-field at `offset`. -/
def set {w : ℕ} (desc : SegmentDescriptor) (offset : ℕ) (v : BitVec w) : SegmentDescriptor :=
  ⟨BitField.set desc.data offset v⟩

end SegmentDescriptor

/-- The contents of the descriptor before are cleared. -/
def setCodeSegment (type : DescriptorType) (descriptorPrivilegeLevel base limit : BitVec 32) :
    SegmentDescriptor :=
  let desc : SegmentDescriptor := ⟨0#64⟩
  let desc := desc.set 0 ((limit &&& 0xffff#32).setWidth 16)
  let desc := desc.set 48 ((limit >>> 16 &&& 0xf#32).setWidth 4)
  let desc := desc.set 16 ((base &&& 0xffff#32).setWidth 16)
  let desc := desc.set 32 ((base >>> 16 &&& 0xff#32).setWidth 8)
  let desc := desc.set 56 ((base >>> 24 &&& 0xff#32).setWidth 8)
  let desc := desc.set 40 type.value
  let desc := desc.set 44 1#1
  let desc := desc.set 45 (descriptorPrivilegeLevel.setWidth 2)
  let desc := desc.set 47 1#1
  let desc := desc.set 53 1#1
  let desc := desc.set 54 0#1
  desc.set 55 1#1

/-- `SetDataSegment`: a code segment without the long mode bit. -/
def setDataSegment (type : DescriptorType) (descriptorPrivilegeLevel base limit : BitVec 32) :
    SegmentDescriptor :=
  let desc := setCodeSegment type descriptorPrivilegeLevel base limit
  let desc := desc.set 53 0#1
  desc.set 54 1#1

/-- The `gdt` that `SetupSegments` leaves. -/
def setupSegments : Vector SegmentDescriptor 3 :=
  #v[⟨0#64⟩, setCodeSegment .kExecuteRead 0#32 0#32 0xfffff#32,
    setDataSegment .kReadWrite 0#32 0#32 0xfffff#32]

/-- `LoadGDT(sizeof(gdt) - 1, &gdt[0])`. -/
def loadGdt (gdt : BitVec 64) : X86Descriptors.TableRegister := ⟨23#16, gdt⟩

/-! ## What the processor reads back -/

open X86Descriptors

section RoundTrip

variable (type : DescriptorType) (descriptorPrivilegeLevel base limit : BitVec 32)

/-- The parts of the base and of the limit. -/
theorem baseParts : BitField.get base 24 8 ++ BitField.get base 16 8 ++ BitField.get base 0 16 =
    base := by
  rw [BitField.get_append_get base 16 8]
  refine (BitField.get_append_get base 0 16).trans ?_
  rw [BitField.get_low, BitVec.setWidth_eq]

theorem limitParts : BitField.get limit 16 4 ++ BitField.get limit 0 16 = limit.setWidth 20 := by
  refine (BitField.get_append_get limit 0 16).trans ?_
  rw [BitField.get_low]

/-- A mask in front of a narrower field does nothing. -/
theorem setWidth_mask {n w : ℕ} (v : BitVec n) {mask : BitVec n}
    (hmask : mask = (BitVec.allOnes w).setWidth n) :
    (v &&& mask).setWidth w = BitField.get v 0 w := by
  have h := BitField.setWidth_shift_mask v 0 hmask
  rwa [BitVec.ushiftRight_zero] at h

/-- The processor reads what `SetCodeSegment` was given: the limit has 20 bits, the privilege level
has 2. -/
theorem segmentOf_setCodeSegment :
    segmentOf (setCodeSegment type descriptorPrivilegeLevel base limit).data =
      { base := base
        limit := limit.setWidth 20
        type := type.value
        codeOrData := true
        dpl := descriptorPrivilegeLevel.setWidth 2
        present := true
        long := true
        big := false
        pages := true } := by
  unfold segmentOf setCodeSegment SegmentDescriptor.set
  simp (disch := omega) only [BitField.get_set_of_disjoint, BitField.get_set]
  rw [BitField.setWidth_shift_mask base 24 (by decide),
    BitField.setWidth_shift_mask base 16 (by decide), setWidth_mask base (by decide), baseParts,
    BitField.setWidth_shift_mask limit 16 (by decide), setWidth_mask limit (by decide), limitParts]
  rfl

end RoundTrip

end TommyOS
