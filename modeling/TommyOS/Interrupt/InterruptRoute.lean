import TommyOS.Interrupt.Interrupt
import TommyOS.Pci.MsiTheorems

/-!
# The interrupt of the host controller

From the message of the device to the handler: `SetupSegments`, `SetIDTEntry` and
`ConfigureMSIFixedDestination` as `KernelMainNewStack` calls them, with what the device, the local
APIC and the processor make of it.
-/

namespace TommyOS

open X86Descriptors Pci

/-! ## The tables -/

/-- `kernel_cs`, which `GetCS` returns after `SetCSSS`. -/
def kernelCs : BitVec 16 := 1#16 <<< 3

/-- `LoadIDT(sizeof(idt) - 1, &idt[0])`. -/
def loadIdt (idt : BitVec 64) : TableRegister := ⟨4095#16, idt⟩

/-- The `idt` after the entry of the host controller is set. -/
def handlerTable (handler : BitVec 64) : BitVec 8 → InterruptDescriptor :=
  Function.update (fun _ => zeroDescriptor) kXHCI
    (setIDTEntry zeroDescriptor (makeIDTAttr .kInterruptGate 0#8 true 0#8) handler kernelCs)

/-- The kernel's tables are where they were loaded from. -/
structure TablesInMemory (read : BitVec 64 → BitVec 64) (gdt idt handler : BitVec 64) : Prop where
  segments : ∀ i : Fin 3, read (gdt + BitVec.ofNat 64 i * 8#64) = (setupSegments.get i).data
  low : ∀ v : BitVec 8, read (idt + v.setWidth 64 * 16#64) = (handlerTable handler v).lowWord
  high : ∀ v : BitVec 8,
    read (idt + v.setWidth 64 * 16#64 + 8#64) = (handlerTable handler v).highWord

/-- The processor when `KernelMainNewStack` enables interrupts. -/
def kernelProcessor (read : BitVec 64 → BitVec 64) (gdt idt : BitVec 64) : Processor where
  read := read
  gdtr := loadGdt gdt
  idtr := loadIdt idt
  cpl := 0#2

section Tables

variable {read : BitVec 64 → BitVec 64} {gdt idt handler : BitVec 64}

/-- The limit of the table lets every vector through. -/
theorem kernelProcessor_gate (h : TablesInMemory read gdt idt handler) (v : BitVec 8) :
    (kernelProcessor read gdt idt).gate v =
      some (gateOf (handlerTable handler v).lowWord (handlerTable handler v).highWord) := by
  have hinside : ¬ (4095#16).toNat < 16 * v.toNat + 15 := by
    have hv := v.isLt
    have hlimit : (4095#16).toNat = 4095 := by decide
    omega
  rw [← h.low v, ← h.high v]
  exact if_neg hinside

/-- The selector of the gate is that of the code segment. -/
theorem kernelProcessor_segment (h : TablesInMemory read gdt idt handler) :
    (kernelProcessor read gdt idt).segment kernelCs =
      some (segmentOf (setCodeSegment .kExecuteRead 0#32 0#32 0xfffff#32).data) := by
  have hread : read (gdt + (BitField.get kernelCs 3 13).setWidth 64 * 8#64) =
      (setCodeSegment .kExecuteRead 0#32 0#32 0xfffff#32).data := h.segments 1
  have hindex : ¬ (BitField.get kernelCs 3 13 = 0#13 ∨ kernelCs.getLsbD 2 = true ∨
      (23#16).toNat < 8 * (BitField.get kernelCs 3 13).toNat + 7) := by decide
  unfold Processor.segment
  refine (if_neg hindex).trans ?_
  exact congrArg (some ∘ segmentOf) hread

/-- The only vector that is handled is the one of the host controller: its handler is entered with
interrupts off, and every other vector faults. -/
theorem kernelProcessor_deliver (h : TablesInMemory read gdt idt handler) (v : BitVec 8) :
    (kernelProcessor read gdt idt).deliver v =
      if v = kXHCI then some ⟨handler, kernelCs, false⟩ else none := by
  have hgate := kernelProcessor_gate h v
  by_cases hv : v = kXHCI
  · rw [if_pos hv]
    rw [hv, handlerTable, Function.update_self] at hgate
    have hdecoded := gateOf_setIDTEntry zeroDescriptor .kInterruptGate 0#8 true 0#8 handler kernelCs
    dsimp only at hdecoded
    rw [hdecoded] at hgate
    subst hv
    refine deliver_of_gate hgate rfl rfl (kernelProcessor_segment h) ?_
    rw [segmentOf_setCodeSegment]
    rfl
  · rw [if_neg hv]
    rw [handlerTable, Function.update_of_ne hv] at hgate
    exact deliver_of_not_present hgate (by decide)

end Tables

/-! ## The message -/

/-- A message that a function may send: it may choose the low bits of the data, as many as
`multi_msg_enable` says. -/
structure Sends (regs : BitVec 6 → BitVec 32) (capAddr : BitVec 8) (m : MessageWrite) : Prop where
  enabled : (msiHeader regs capAddr).msiEnable = 1#1
  address : m.address = messageAddress regs capAddr
  data : ∀ i, (msiHeader regs capAddr).multiMsgEnable.toNat ≤ i →
    m.data.getLsbD i = (regs (capWord capAddr (dataWord (msiHeader regs capAddr)))).getLsbD i

/-- `bsp_local_apic_id`, from the register of the local APIC. -/
def bspLocalApicId (register : BitVec 32) : BitVec 8 := (register >>> 24).setWidth 8

/-- The address that `ConfigureMSIFixedDestination` writes: the window of the local APICs, the
destination, and no redirection. -/
theorem messageAddress_fields (apicId : BitVec 8) :
    BitField.get (0xfee00000#64 ||| apicId.setWidth 64 <<< 12) 20 44 = 0xfee#44 ∧
      BitField.get (0xfee00000#64 ||| apicId.setWidth 64 <<< 12) 12 8 = apicId ∧
      BitField.get (0xfee00000#64 ||| apicId.setWidth 64 <<< 12) 2 2 = 0#2 := by
  revert apicId
  decide +kernel

/-- The message that a device was set up for, at the local APIC. -/
theorem vectorAt_configured {regs regs' : BitVec 6 → BitVec 32} {capAddr apicId : BitVec 8}
    (h : MsiConfigured regs regs' capAddr apicId .kLevel .kFixed kXHCI 0#32) {m : MessageWrite}
    (hm : Sends regs' capAddr m) : m.vectorAt apicId = some kXHCI := by
  have haddress : m.address = 0xfee00000#64 ||| apicId.setWidth 64 <<< 12 :=
    hm.address.trans h.address
  -- one vector is enabled, so the device cannot change the data
  have hmulti : (msiHeader regs' capAddr).multiMsgEnable.toNat = 0 := by
    rw [h.multi]
    exact Nat.min_zero _
  have hlayout : dataWord (msiHeader regs' capAddr) = dataWord (msiHeader regs capAddr) := by
    unfold dataWord CapabilityHeader.addr64Capable
    rw [h.headerBits 23 (by omega) (by omega) (by omega)]
  have hdata : m.data = 0xc040#32 := by
    apply BitVec.eq_of_getLsbD_eq
    intro i _
    rw [hm.data i (by omega), hlayout, h.data]
    rfl
  obtain ⟨hbase, hdestination, hmode⟩ := messageAddress_fields apicId
  unfold MessageWrite.vectorAt
  rw [haddress, hdata, if_pos ⟨hbase, hdestination, hmode, by decide, by decide⟩]
  decide

/-- A message that a local APIC takes goes to an address below 4 GiB. -/
theorem vectorAt_upper {upper low : BitVec 32} {data : BitVec 32} {apicId vector : BitVec 8}
    (h : (MessageWrite.mk (upper ++ low) data).vectorAt apicId = some vector) : upper = 0#32 := by
  unfold MessageWrite.vectorAt at h
  split at h
  · next hfields =>
    have hupper : upper = BitField.get (BitField.get (upper ++ low) 20 44) 12 32 := by
      apply BitVec.eq_of_getLsbD_eq
      intro i hi
      unfold BitField.get
      rw [BitVec.getLsbD_extractLsb', BitVec.getLsbD_extractLsb', BitVec.getLsbD_append,
        if_neg (by omega), decide_eq_true hi, decide_eq_true (show 12 + i < 44 by omega),
        Bool.true_and, Bool.true_and, show 20 + (12 + i) - 32 = i by omega]
    rw [hupper, hfields.1]
    decide
  · exact nomatch h

/-- **The interrupt of the host controller reaches its handler.** For a device whose capability list
has one MSI capability, the call of `KernelMainNewStack` succeeds, and the device then has a message
to send. Every message that it may send enters `IntHandlerXHCI` on the bootstrap processor, in the
kernel's code segment and with interrupts off, if and only if the capability has no upper address
word, or that word was zero before. -/
theorem xhcInterrupt_reaches_handler_iff {space : ConfigSpace} {dev : Device}
    {caps : List (BitVec 8)} {capAddr : BitVec 8}
    (hcaps : HasOneMsi (registers space dev) caps capAddr) (apicRegister : BitVec 32)
    {read : BitVec 64 → BitVec 64} {gdt idt handler : BitVec 64}
    (htables : TablesInMemory read gdt idt handler) :
    ∃ space', (∀ fuel, caps.length < fuel →
        configureMSIFixedDestination space fuel dev (bspLocalApicId apicRegister) .kLevel .kFixed
          kXHCI 0#32 = some (.kSuccess, space')) ∧
      SameElsewhere dev space space' ∧
      (∃ m, Sends (registers space' dev) capAddr m) ∧
      ((∀ m, Sends (registers space' dev) capAddr m →
          (m.vectorAt (bspLocalApicId apicRegister)).bind (kernelProcessor read gdt idt).deliver =
            some ⟨handler, kernelCs, false⟩) ↔
        ((msiHeader (registers space dev) capAddr).addr64Capable = true →
          registers space dev (capWord capAddr 2) = 0#32)) := by
  generalize bspLocalApicId apicRegister = apicId
  refine ⟨(configureMSIRegister space dev capAddr (0xfee00000#32 ||| apicId.setWidth 32 <<< 12)
    (MSIDeliveryMode.kFixed.value <<< 8 ||| kXHCI.setWidth 32 |||
      if MSITriggerMode.kLevel = .kLevel then 0xc000#32 else 0#32) 0#32).2,
    fun fuel hfuel => configureMSI_eq hcaps hfuel _ _ _, sameElsewhere_writeMSICapability _ _, ?_⟩
  rw [registers_configureMSIRegister]
  generalize registers space dev = regs
  generalize hdata : (MSIDeliveryMode.kFixed.value <<< 8 ||| kXHCI.setWidth 32 |||
    if MSITriggerMode.kLevel = .kLevel then 0xc000#32 else 0#32) = msgData
  have hconfigured := msiConfigured_writtenRegisters_iff regs capAddr 0#32 apicId .kLevel .kFixed
    kXHCI (by decide)
  have haddress := messageAddress_writtenRegisters_iff regs capAddr msgData 0#32 apicId
  have hlow := writtenRegisters_address regs capAddr
    (0xfee00000#32 ||| apicId.setWidth 32 <<< 12) msgData 0#32
  have henabled : (msiHeader (writtenRegisters regs capAddr
      (0xfee00000#32 ||| apicId.setWidth 32 <<< 12) msgData 0#32) capAddr).msiEnable = 1#1 := by
    obtain ⟨value, -, hvalue⟩ := exists_configuredHeader (msiHeader regs capAddr) 0#32 (by decide)
    rw [writtenRegisters_header, hvalue, msiEnable_setMsiEnable]
  rw [hdata] at hconfigured
  change (∃ m, Sends (writtenRegisters regs capAddr _ msgData 0#32) capAddr m) ∧
    ((∀ m, Sends (writtenRegisters regs capAddr _ msgData 0#32) capAddr m → _) ↔ _)
  generalize hwritten : writtenRegisters regs capAddr
    (0xfee00000#32 ||| apicId.setWidth 32 <<< 12) msgData 0#32 = regs' at *
  have hsends : Sends regs' capAddr ⟨messageAddress regs' capAddr,
      regs' (capWord capAddr (dataWord (msiHeader regs' capAddr)))⟩ :=
    ⟨henabled, rfl, fun _ _ => rfl⟩
  refine ⟨⟨_, hsends⟩, fun henters => ?_, fun hupper m hm => ?_⟩
  · -- the message is taken, so its address has no upper half
    obtain ⟨vector, hvector, -⟩ := Option.bind_eq_some_iff.mp (henters _ hsends)
    refine haddress.mp ?_
    unfold messageAddress at hvector ⊢
    rw [hlow] at hvector ⊢
    exact (append_messageAddress _ apicId).mpr (vectorAt_upper hvector)
  · rw [vectorAt_configured (hconfigured.mpr hupper) hm]
    exact (kernelProcessor_deliver htables kXHCI).trans (if_pos rfl)

/-! An MSI capability at 0x50 with one address word, and tables at 0x1000 and 0x2000. -/

/-- Configuration space with one such capability for every function. -/
def exampleMsiSpace : ConfigSpace := fun _ _ _ register =>
  if register = 13#6 then 0x50#32
  else if register = 20#6 then 0x00000005#32
  else 0#32

/-- Memory with both tables. -/
def exampleTables (address : BitVec 64) : BitVec 64 :=
  if address.toNat < 0x2000 then (setupSegments.toList.getD ((address.toNat - 0x1000) / 8) ⟨0⟩).data
  else
    let desc := handlerTable 0x101234#64 (BitVec.ofNat 8 ((address.toNat - 0x2000) / 16))
    if address.toNat % 16 = 0 then desc.lowWord else desc.highWord

theorem exampleTables_inMemory :
    TablesInMemory exampleTables 0x1000#64 0x2000#64 0x101234#64 := by
  constructor
  · decide
  · decide +kernel
  · decide +kernel

theorem exampleMsiSpace_hasOneMsi :
    HasOneMsi (registers exampleMsiSpace someDevice) [0x50#8] 0x50#8 := by
  constructor
  · exact .cons (by decide) (by decide) .nil
  · decide
  · decide

theorem xhcInterrupt_reaches_handler_example :
    ∃ space', (∀ fuel, [0x50#8].length < fuel →
        configureMSIFixedDestination exampleMsiSpace fuel someDevice (bspLocalApicId 0x02000000#32)
          .kLevel .kFixed kXHCI 0#32 = some (.kSuccess, space')) ∧
      SameElsewhere someDevice exampleMsiSpace space' ∧
      (∃ m, Sends (registers space' someDevice) 0x50#8 m) ∧
      ((∀ m, Sends (registers space' someDevice) 0x50#8 m →
          (m.vectorAt (bspLocalApicId 0x02000000#32)).bind
              (kernelProcessor exampleTables 0x1000#64 0x2000#64).deliver =
            some ⟨0x101234#64, kernelCs, false⟩) ↔
        ((msiHeader (registers exampleMsiSpace someDevice) 0x50#8).addr64Capable = true →
          registers exampleMsiSpace someDevice (capWord 0x50#8 2) = 0#32)) :=
  xhcInterrupt_reaches_handler_iff exampleMsiSpace_hasOneMsi 0x02000000#32 exampleTables_inMemory

end TommyOS
