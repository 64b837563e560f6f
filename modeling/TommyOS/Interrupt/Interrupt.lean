import TommyOS.Segment.Segment

/-!
# `interrupt`: the interrupt descriptor table
-/

namespace TommyOS

/-- The value of `InterruptVector::kXHCI`. -/
def kXHCI : BitVec 8 := 0x40#8

/-- The union over the word `data`. -/
structure InterruptDescriptorAttribute where
  data : BitVec 16
deriving DecidableEq

/-- An entry of `idt`. -/
structure InterruptDescriptor where
  offsetLow : BitVec 16
  segmentSelector : BitVec 16
  attr : InterruptDescriptorAttribute
  offsetMiddle : BitVec 16
  offsetHigh : BitVec 32
  reserved : BitVec 32
deriving DecidableEq

namespace InterruptDescriptor

/-! The packed structure is two words in memory. -/

/-- The parts of the descriptor up to the middle of the offset. -/
def lowWord (desc : InterruptDescriptor) : BitVec 64 :=
  desc.offsetMiddle ++ desc.attr.data ++ desc.segmentSelector ++ desc.offsetLow

def highWord (desc : InterruptDescriptor) : BitVec 64 := desc.reserved ++ desc.offsetHigh

end InterruptDescriptor

/-- The elements of `idt` before the first `SetIDTEntry`. -/
def zeroDescriptor : InterruptDescriptor := ⟨0#16, 0#16, ⟨0#16⟩, 0#16, 0#32, 0#32⟩

/-- `MakeIDTAttr`. -/
def makeIDTAttr (type : DescriptorType) (descriptorPrivilegeLevel : BitVec 8) (present : Bool)
    (interruptStackTable : BitVec 8) : InterruptDescriptorAttribute :=
  let data := BitField.set 0#16 0 (interruptStackTable.setWidth 3)
  let data := BitField.set data 8 type.value
  let data := BitField.set data 13 (descriptorPrivilegeLevel.setWidth 2)
  ⟨BitField.set data 15 (BitVec.ofBool present)⟩

/-- `SetIDTEntry`: the offset in three parts; the reserved word stays. -/
def setIDTEntry (desc : InterruptDescriptor) (attr : InterruptDescriptorAttribute)
    (offset : BitVec 64) (segmentSelector : BitVec 16) : InterruptDescriptor :=
  { desc with
    segmentSelector := segmentSelector
    attr := attr
    offsetLow := (offset &&& 0xffff#64).setWidth 16
    offsetMiddle := (offset >>> 16 &&& 0xffff#64).setWidth 16
    offsetHigh := (offset >>> 32).setWidth 32 }

/-! ## What the processor reads back -/

open X86Descriptors

section RoundTrip

variable (desc : InterruptDescriptor)

/-- A field of the attributes, in the word that holds them. -/
theorem get_lowWord_attr (offset w : ℕ) (hinside : offset + w ≤ 16) :
    BitField.get desc.lowWord (32 + offset) w = BitField.get desc.attr.data offset w := by
  unfold InterruptDescriptor.lowWord
  rw [BitField.get_append_high _ _ (by omega), BitField.get_append_high _ _ (by omega),
    BitField.get_append_low _ _ (by omega), show 32 + offset - 16 - 16 = offset by omega]

/-- The processor finds each field where the structure has it. -/
theorem gateOf_words :
    gateOf desc.lowWord desc.highWord =
      { offset := desc.offsetHigh ++ desc.offsetMiddle ++ desc.offsetLow
        selector := desc.segmentSelector
        stackTable := BitField.get desc.attr.data 0 3
        type := BitField.get desc.attr.data 8 4
        dpl := BitField.get desc.attr.data 13 2
        present := BitField.get desc.attr.data 15 1 == 1#1 } := by
  have hhigh : BitField.get desc.highWord 0 32 = desc.offsetHigh := by
    unfold InterruptDescriptor.highWord
    rw [BitField.get_append_low _ _ (by omega), BitField.get_low, BitVec.setWidth_eq]
  have hlow : BitField.get desc.lowWord 0 16 = desc.offsetLow := by
    unfold InterruptDescriptor.lowWord
    rw [BitField.get_append_low _ _ (by omega), BitField.get_low, BitVec.setWidth_eq]
  have hselector : BitField.get desc.lowWord 16 16 = desc.segmentSelector := by
    unfold InterruptDescriptor.lowWord
    rw [BitField.get_append_high _ _ (by omega), BitField.get_append_low _ _ (by omega),
      BitField.get_low, BitVec.setWidth_eq]
  have hmiddle : BitField.get desc.lowWord 48 16 = desc.offsetMiddle := by
    unfold InterruptDescriptor.lowWord
    rw [BitField.get_append_high _ _ (by omega), BitField.get_append_high _ _ (by omega),
      BitField.get_append_high _ _ (by omega), BitField.get_low, BitVec.setWidth_eq]
  unfold gateOf
  rw [hhigh, hlow, hselector, hmiddle, get_lowWord_attr desc 0 3 (by omega),
    get_lowWord_attr desc 8 4 (by omega), get_lowWord_attr desc 13 2 (by omega),
    get_lowWord_attr desc 15 1 (by omega)]

variable (type : DescriptorType) (descriptorPrivilegeLevel : BitVec 8) (present : Bool)
  (interruptStackTable : BitVec 8) (offset : BitVec 64) (segmentSelector : BitVec 16)

/-- The three parts of the offset. -/
theorem offsetParts : (offset >>> 32).setWidth 32 ++ (offset >>> 16 &&& 0xffff#64).setWidth 16 ++
    (offset &&& 0xffff#64).setWidth 16 = offset := by
  have hhigh : (offset >>> 32).setWidth 32 = BitField.get offset 32 32 := by
    apply BitVec.eq_of_getLsbD_eq
    intro i hi
    rw [BitVec.getLsbD_setWidth, BitVec.getLsbD_ushiftRight, BitField.get,
      BitVec.getLsbD_extractLsb']
  rw [hhigh, BitField.setWidth_shift_mask offset 16 (by decide), setWidth_mask offset (by decide),
    BitField.get_append_get offset 16 16]
  refine (BitField.get_append_get offset 0 16).trans ?_
  rw [BitField.get_low, BitVec.setWidth_eq]

/-- Whatever the entry held before, the processor reads the gate that `SetIDTEntry` was given: the
privilege level has 2 bits, the number of the stack has 3. -/
theorem gateOf_setIDTEntry :
    let desc := setIDTEntry desc
      (makeIDTAttr type descriptorPrivilegeLevel present interruptStackTable) offset
      segmentSelector
    gateOf desc.lowWord desc.highWord =
      { offset := offset
        selector := segmentSelector
        stackTable := interruptStackTable.setWidth 3
        type := type.value
        dpl := descriptorPrivilegeLevel.setWidth 2
        present := present } := by
  intro desc
  rw [gateOf_words]
  unfold desc setIDTEntry makeIDTAttr
  simp (disch := omega) only [BitField.get_set_of_disjoint, BitField.get_set]
  rw [offsetParts]
  cases present <;> rfl

end RoundTrip

end TommyOS
