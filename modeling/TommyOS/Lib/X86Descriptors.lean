import TommyOS.Lib.BitField

/-!
# Descriptors and interrupts of x86-64

What the processor reads from the descriptor tables in 64-bit mode, and where an interrupt of a
vector takes it. Only what decides whether the handler is entered, and how, is kept.
-/

namespace X86Descriptors

/-! ## Descriptors -/

/-- The fields of a code or data segment descriptor. -/
structure Segment where
  base : BitVec 32
  limit : BitVec 20
  type : BitVec 4
  codeOrData : Bool
  dpl : BitVec 2
  present : Bool
  long : Bool
  big : Bool
  pages : Bool
deriving DecidableEq

def segmentOf (d : BitVec 64) : Segment where
  base := BitField.get d 56 8 ++ BitField.get d 32 8 ++ BitField.get d 16 16
  limit := BitField.get d 48 4 ++ BitField.get d 0 16
  type := BitField.get d 40 4
  codeOrData := BitField.get d 44 1 == 1#1
  dpl := BitField.get d 45 2
  present := BitField.get d 47 1 == 1#1
  long := BitField.get d 53 1 == 1#1
  big := BitField.get d 54 1 == 1#1
  pages := BitField.get d 55 1 == 1#1

/-- The fields of an interrupt or trap gate. -/
structure Gate where
  offset : BitVec 64
  selector : BitVec 16
  stackTable : BitVec 3
  type : BitVec 4
  dpl : BitVec 2
  present : Bool
deriving DecidableEq

def gateOf (low high : BitVec 64) : Gate where
  offset := BitField.get high 0 32 ++ BitField.get low 48 16 ++ BitField.get low 0 16
  selector := BitField.get low 16 16
  stackTable := BitField.get low 32 3
  type := BitField.get low 40 4
  dpl := BitField.get low 45 2
  present := BitField.get low 47 1 == 1#1

/-! ## Delivery -/

/-- `GDTR` or `IDTR`. -/
structure TableRegister where
  limit : BitVec 16
  base : BitVec 64

/-- The processor as far as an interrupt is concerned; `read` gives the word at an address. -/
structure Processor where
  read : BitVec 64 → BitVec 64
  gdtr : TableRegister
  idtr : TableRegister
  cpl : BitVec 2

/-- Where the processor goes on, and whether interrupts stay enabled. -/
structure Entry where
  rip : BitVec 64
  cs : BitVec 16
  interruptFlag : Bool
deriving DecidableEq

def interruptGate : BitVec 4 := 14#4

def trapGate : BitVec 4 := 15#4

/-- A segment that 64-bit code at privilege `dpl` can run in. -/
def Segment.runs (s : Segment) (cpl : BitVec 2) : Bool :=
  s.codeOrData && s.type.getLsbD 3 && s.present && s.long && !s.big && s.dpl ≤ cpl

/-- The code segment of a selector, when it is in the table. -/
def Processor.segment (cpu : Processor) (selector : BitVec 16) : Option Segment :=
  let index := BitField.get selector 3 13
  if index = 0#13 ∨ selector.getLsbD 2 = true ∨ cpu.gdtr.limit.toNat < 8 * index.toNat + 7 then
    none
  else
    some (segmentOf (cpu.read (cpu.gdtr.base + index.setWidth 64 * 8#64)))

/-- The gate of a vector, when it is in the table. -/
def Processor.gate (cpu : Processor) (vector : BitVec 8) : Option Gate :=
  if cpu.idtr.limit.toNat < 16 * vector.toNat + 15 then none
  else
    let address := cpu.idtr.base + vector.setWidth 64 * 16#64
    some (gateOf (cpu.read address) (cpu.read (address + 8#64)))

/-- An external interrupt: `none` is a fault of the delivery. -/
def Processor.deliver (cpu : Processor) (vector : BitVec 8) : Option Entry := do
  let gate ← cpu.gate vector
  if (gate.type = interruptGate ∨ gate.type = trapGate) ∧ gate.present then
    let segment ← cpu.segment gate.selector
    if segment.runs cpu.cpl then
      some ⟨gate.offset, gate.selector, gate.type == trapGate⟩
    else none
  else none

/-- A gate that is not present is never entered. -/
theorem deliver_of_not_present {cpu : Processor} {vector : BitVec 8} {gate : Gate}
    (hgate : cpu.gate vector = some gate) (habsent : gate.present = false) :
    cpu.deliver vector = none := by
  rw [Processor.deliver, hgate]
  exact if_neg fun h => absurd h.2 (by rw [habsent]; decide)

theorem deliver_of_gate {cpu : Processor} {vector : BitVec 8} {gate : Gate} {segment : Segment}
    (hgate : cpu.gate vector = some gate) (htype : gate.type = interruptGate)
    (hpresent : gate.present = true) (hsegment : cpu.segment gate.selector = some segment)
    (hruns : segment.runs cpu.cpl = true) :
    cpu.deliver vector = some ⟨gate.offset, gate.selector, false⟩ := by
  rw [Processor.deliver, hgate]
  refine (if_pos ⟨.inl htype, hpresent⟩).trans ?_
  rw [hsegment]
  refine (if_pos hruns).trans ?_
  rw [htype]
  rfl

/-! ## Messages -/

/-- A write that a device sends to a local APIC. -/
structure MessageWrite where
  address : BitVec 64
  data : BitVec 32

/-- The vector that the local APIC `apicId` takes from a message of fixed delivery to a physical
destination. A level that is deasserted is ignored. -/
def MessageWrite.vectorAt (m : MessageWrite) (apicId : BitVec 8) : Option (BitVec 8) :=
  if BitField.get m.address 20 44 = 0xfee#44 ∧ BitField.get m.address 12 8 = apicId ∧
      BitField.get m.address 2 2 = 0#2 ∧ BitField.get m.data 8 3 = 0#3 ∧
      (m.data.getLsbD 15 = true → m.data.getLsbD 14 = true) then
    some (BitField.get m.data 0 8)
  else none

end X86Descriptors
