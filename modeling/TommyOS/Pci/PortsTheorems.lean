import TommyOS.Pci.Ports

/-!
# The ports implement the configuration space

Whatever address was written last, the programs on the ports return what the functions of the
configuration space return, and leave the space that these leave.
-/

namespace TommyOS.Pci.Ports

open StateProgram

/-- What a run on the ports leaves is what the function on the space leaves. -/
abbrev Runs {α : Type} (m : PortProgram α) (s : Ports) (v : Option (α × ConfigSpace)) : Prop :=
  Gives Ports.space m s v

/-- A run on the ports that leaves the space. -/
abbrev Reads {α : Type} (space : ConfigSpace) (m : PortProgram α) (s : Ports)
    (v : Option α) : Prop :=
  Observes Ports.space space m s v

variable {space : ConfigSpace} {s : Ports}

section Registers

variable (hs : s.space = space) (bus device function : BitVec 8) (dev : Device)
  (regAddr : BitVec 8) (value : BitVec 32)

include hs

/-- The address of the register, then its value: one read through the ports. -/
theorem readVendorId_reads : Reads space (readVendorId bus device function) s
    (some (Pci.readVendorId space bus device function)) := by
  subst hs
  rfl

theorem readHeaderType_reads : Reads space (readHeaderType bus device function) s
    (some (Pci.readHeaderType space bus device function)) := by
  subst hs
  rfl

theorem readClassCode_reads : Reads space (readClassCode bus device function) s
    (some (Pci.readClassCode space bus device function)) := by
  subst hs
  rfl

theorem readBusNumbers_reads : Reads space (readBusNumbers bus device function) s
    (some (Pci.readBusNumbers space bus device function)) := by
  subst hs
  rfl

theorem readConfReg_reads : Reads space (readConfReg dev regAddr) s
    (some (Pci.readConfReg space dev regAddr)) := by
  subst hs
  rfl

/-- A register is written behind its address. -/
theorem writeConfReg_runs : Runs (writeConfReg dev regAddr value) s
    (some (⟨⟩, Pci.writeConfReg space dev regAddr value)) := by
  subst hs
  rfl

end Registers

/-! ## The scan -/

section Scan

variable {t : DeviceTable}

/-- A loop reads what the loop of its bodies reads. -/
theorem forEach_reads {α : Type} {body : α → DeviceTable → PortProgram (Error × DeviceTable)}
    {body' : α → DeviceTable → Option (Error × DeviceTable)} (as : List α)
    (h : ∀ a t s, s.space = space → Reads space (body a t) s (body' a t)) (hs : s.space = space) :
    Reads space (forEach body as t) s (forEach body' as t) := by
  induction as generalizing s t with
  | nil => exact gives_pure _ hs
  | cons a as ih =>
    refine (h a t s hs).andThen fun r s' hs' => ?_
    obtain ⟨err, t'⟩ := r
    dsimp only
    split
    · exact gives_pure _ hs'
    · exact ih hs'

/-- The vendor is read first, and the body runs where there is one. -/
theorem whenPresent_reads {body : DeviceTable → PortProgram (Error × DeviceTable)}
    {body' : DeviceTable → Option (Error × DeviceTable)} (bus device function : BitVec 8)
    (h : ∀ t s, s.space = space → Reads space (body t) s (body' t)) (hs : s.space = space) :
    Reads space (whenPresent bus device function body t) s
      (if Pci.readVendorId space bus device function = 0xffff#16 then some (.kSuccess, t)
        else body' t) := by
  refine (readVendorId_reads hs bus device function).seq fun s' hs' => ?_
  split
  · exact gives_pure _ hs'
  · exact h t s' hs'

variable {scanBus₀ : BusScan} {scanBus' : Pci.BusScan DeviceTable}
  (hscan : ∀ bus t s, s.space = space → Reads space (scanBus₀ bus t) s (scanBus' bus t))

include hscan

/-- Class, header type and bus numbers are read in the order of the source. -/
theorem scanFunction_reads (bus device function : BitVec 8) (t : DeviceTable) (s : Ports)
    (hs : s.space = space) :
    Reads space (scanFunction scanBus₀ bus device function t) s
      (Pci.scanFunction space scanBus' bus device function t) := by
  refine (readClassCode_reads hs bus device function).seq fun s₁ h₁ => ?_
  refine (readHeaderType_reads h₁ bus device function).seq fun s₂ h₂ => ?_
  unfold Pci.scanFunction
  simp only [scanTable_addDevice]
  split
  · exact gives_pure _ h₂
  · split
    · refine (readBusNumbers_reads h₂ bus device function).seq fun s₃ h₃ => ?_
      exact hscan _ _ s₃ h₃
    · exact gives_pure _ h₂

/-- The first function, then the other seven if its header says so. -/
theorem scanDevice_reads (bus device : BitVec 8) (t : DeviceTable) (s : Ports)
    (hs : s.space = space) :
    Reads space (scanDevice scanBus₀ bus device t) s
      (Pci.scanDevice space scanBus' bus device t) := by
  refine (scanFunction_reads hscan bus device 0#8 t s hs).andThen fun r s₁ h₁ => ?_
  obtain ⟨err, t'⟩ := r
  dsimp only
  split
  · exact gives_pure _ h₁
  · refine (readHeaderType_reads h₁ bus device 0#8).seq fun s₂ h₂ => ?_
    split
    · exact gives_pure _ h₂
    · refine forEach_reads (counter 1 7) (fun function t s hs => ?_) h₂
      exact whenPresent_reads bus device function
        (fun t s hs => scanFunction_reads hscan bus device function t s hs) hs

omit hscan

/-- By induction on the depth that is left, as the nested calls are those of a smaller one. -/
theorem scanBus_reads (depth : ℕ) (bus : BitVec 8) (t : DeviceTable) (s : Ports)
    (hs : s.space = space) :
    Reads space (scanBus depth bus t) s (Pci.scanBus space depth bus t) := by
  induction depth generalizing bus t s with
  | zero => exact gives_none
  | succ depth ih =>
    refine forEach_reads (counter 0 32) (fun device t s hs => ?_) hs
    exact whenPresent_reads bus device 0#8 (fun t s hs => scanDevice_reads ih bus device t s hs) hs

/-- The table of the scan through the ports is the one of the scan of the space. -/
theorem scanAllBus_reads (depth : ℕ) (t : DeviceTable) (hs : s.space = space) :
    Reads space (scanAllBus depth t) s (Pci.scanAllBus space depth t) := by
  refine (readHeaderType_reads hs 0#8 0#8 0#8).seq fun s₁ h₁ => ?_
  unfold Pci.scanAllBus
  dsimp only
  split
  · exact scanBus_reads depth 0#8 _ s₁ h₁
  · refine forEach_reads (counter 0 8) (fun function t s hs => ?_) h₁
    exact whenPresent_reads 0#8 0#8 function
      (fun t s hs => scanBus_reads depth function t s hs) hs

end Scan

/-! ## Message signalled interrupts -/

section Msi

variable (hs : s.space = space) (dev : Device) (capAddr : BitVec 8)

include hs

omit hs in
/-- The registers that a capability need not have. -/
theorem readWhen_reads (hs : s.space = space) (present : Bool) :
    Reads space (readWhen present dev capAddr) s
      (some (if present then Pci.readConfReg space dev capAddr else 0#32)) := by
  cases present with
  | true => exact readConfReg_reads hs dev capAddr
  | false => exact gives_pure _ hs

/-- The registers of a capability that are written only where it has them. -/
theorem writeWhen_runs (present : Bool) (value : BitVec 32) :
    Runs (writeWhen present dev capAddr value) s
      (some (⟨⟩, if present then Pci.writeConfReg space dev capAddr value else space)) := by
  cases present with
  | true => exact writeConfReg_runs hs dev capAddr value
  | false => exact gives_pure _ hs

/-- The fields of a capability, read one after the other. -/
theorem readMSICapability_reads : Reads space (readMSICapability dev capAddr) s
    (some (Pci.readMSICapability space dev capAddr)) := by
  refine (readConfReg_reads hs dev capAddr).seq fun s₁ h₁ => ?_
  refine (readConfReg_reads h₁ dev (capAddr + 4#8)).seq fun s₂ h₂ => ?_
  refine (readWhen_reads dev (capAddr + 8#8) h₂ _).seq fun s₃ h₃ => ?_
  refine (readConfReg_reads h₃ dev _).seq fun s₄ h₄ => ?_
  refine (readWhen_reads dev _ h₄ _).seq fun s₅ h₅ => ?_
  refine (readWhen_reads dev _ h₅ _).seq fun s₆ h₆ => ?_
  exact gives_pure _ h₆

/-- The fields of a capability, written one after the other. -/
theorem writeMSICapability_runs (msiCap : MSICapability) :
    Runs (writeMSICapability dev capAddr msiCap) s
      (some (⟨⟩, Pci.writeMSICapability space dev capAddr msiCap)) := by
  refine (writeConfReg_runs hs dev capAddr _).seq fun s₁ h₁ => ?_
  refine (writeConfReg_runs h₁ dev (capAddr + 4#8) _).seq fun s₂ h₂ => ?_
  refine (writeWhen_runs h₂ dev (capAddr + 8#8) _ _).seq fun s₃ h₃ => ?_
  refine (writeConfReg_runs h₃ dev _ _).seq fun s₄ h₄ => ?_
  unfold Pci.writeMSICapability
  generalize msiCap.header.perVectorMaskCapable = present
  cases present with
  | true =>
    refine (writeWhen_runs h₄ dev _ true _).seq fun s₅ h₅ => ?_
    exact writeWhen_runs h₅ dev _ true _
  | false =>
    refine (writeWhen_runs h₄ dev _ false _).seq fun s₅ h₅ => ?_
    exact writeWhen_runs h₅ dev _ false _

/-- Reading, changing and writing back a capability. -/
theorem configureMSIRegister_runs (msgAddr msgData numVectorExponent : BitVec 32) :
    Runs (configureMSIRegister dev capAddr msgAddr msgData numVectorExponent) s
      (some (Pci.configureMSIRegister space dev capAddr msgAddr msgData numVectorExponent)) := by
  refine (readMSICapability_reads hs dev capAddr).seq fun s₁ h₁ => ?_
  refine (writeMSICapability_runs h₁ dev capAddr _).seq fun s₂ h₂ => ?_
  exact gives_pure _ h₂

/-- The walk over the list of capabilities, by induction on the fuel. -/
theorem findCapabilities_reads (fuel : ℕ) (capPointer msiCapAddr msixCapAddr : BitVec 8) :
    Reads space (findCapabilities dev fuel capPointer msiCapAddr msixCapAddr) s
      (Pci.findCapabilities space dev fuel capPointer msiCapAddr msixCapAddr) := by
  induction fuel generalizing s capPointer msiCapAddr msixCapAddr with
  | zero => exact gives_none
  | succ fuel ih =>
    unfold findCapabilities Pci.findCapabilities
    split
    · exact gives_pure _ hs
    · refine (readConfReg_reads hs dev capPointer).seq fun s₁ h₁ => ?_
      unfold readCapabilityHeader
      dsimp only
      split
      · exact ih h₁ _ _ _
      · split
        · exact ih h₁ _ _ _
        · exact ih h₁ _ _ _

/-- The walk, and the capability that it found. -/
theorem configureMSI_runs (fuel : ℕ) (msgAddr msgData numVectorExponent : BitVec 32) :
    Runs (configureMSI fuel dev msgAddr msgData numVectorExponent) s
      (Pci.configureMSI space fuel dev msgAddr msgData numVectorExponent) := by
  refine (readConfReg_reads hs dev 0x34#8).seq fun s₁ h₁ => ?_
  refine (findCapabilities_reads h₁ dev fuel _ 0#8 0#8).bind fun caps s₂ h₂ => ?_
  obtain ⟨msiCapAddr, msixCapAddr⟩ := caps
  dsimp only
  split
  · exact configureMSIRegister_runs h₂ dev _ _ _ _
  · split
    · exact gives_pure _ h₂
    · exact gives_pure _ h₂

theorem configureMSIFixedDestination_runs (fuel : ℕ) (apicId : BitVec 8)
    (triggerMode : MSITriggerMode) (deliveryMode : MSIDeliveryMode) (vector : BitVec 8)
    (numVectorExponent : BitVec 32) :
    Runs (configureMSIFixedDestination fuel dev apicId triggerMode deliveryMode vector
        numVectorExponent) s
      (Pci.configureMSIFixedDestination space fuel dev apicId triggerMode deliveryMode vector
        numVectorExponent) :=
  configureMSI_runs hs dev fuel _ _ _

end Msi

/-! ## The host controller -/

section HostController

variable (dev : Device)

/-- Only controllers have their vendor read. -/
theorem lookupXHCFrom_reads (devices : List Device) (xhcDev : Option Device)
    (hs : s.space = space) :
    Reads space (lookupXHCFrom xhcDev devices) s
      (some (Pci.lookupXHCFrom space xhcDev devices)) := by
  induction devices generalizing s xhcDev with
  | nil => exact gives_pure _ hs
  | cons dev devices ih =>
    unfold lookupXHCFrom Pci.lookupXHCFrom
    split
    · refine (readVendorId_reads hs dev.bus dev.device dev.function).seq fun s₁ h₁ => ?_
      unfold Pci.vendorIdOf
      split
      · exact gives_pure _ h₁
      · exact ih _ h₁
    · exact ih _ hs

/-- The source reads the vendor only of an EHCI controller. -/
theorem intelEhcExist_reads (devices : List Device) (hs : s.space = space) :
    Reads space (intelEhcExist devices) s (some (Pci.intelEhcExist space devices)) := by
  induction devices generalizing s with
  | nil => exact gives_pure _ hs
  | cons dev devices ih =>
    unfold intelEhcExist Pci.intelEhcExist
    by_cases hehci : isEhci dev = true
    · rw [if_pos hehci, hehci, Bool.true_and]
      refine (readVendorId_reads hs dev.bus dev.device dev.function).seq fun s₁ h₁ => ?_
      unfold Pci.vendorIdOf
      by_cases hvendor : Pci.readVendorId space dev.bus dev.device dev.function = 0x8086#16
      · rw [if_pos hvendor, if_pos (beq_iff_eq.mpr hvendor)]
        exact gives_pure _ h₁
      · rw [if_neg hvendor, if_neg fun h => hvendor (beq_iff_eq.mp h)]
        exact ih h₁
    · rw [if_neg hehci]
      rw [Bool.not_eq_true] at hehci
      rw [hehci, Bool.false_and]
      exact ih hs

/-- A base address takes a second read when it has 64 bits. -/
theorem readBar_reads (hs : s.space = space) (barIndex : BitVec 32) :
    Reads space (readBar dev barIndex) s (some (Pci.readBar space dev barIndex)) := by
  unfold readBar Pci.readBar
  split
  · exact gives_pure _ hs
  · refine (readConfReg_reads hs dev _).seq fun s₁ h₁ => ?_
    dsimp only
    split
    · exact gives_pure _ h₁
    · split
      · exact gives_pure _ h₁
      · refine (readConfReg_reads h₁ dev _).seq fun s₂ h₂ => ?_
        exact gives_pure _ h₂

/-- The two registers are copied in the order of the source. -/
theorem switchEhci2Xhci_runs (hs : s.space = space) (t : DeviceTable) :
    Runs (switchEhci2Xhci t dev) s (some (⟨⟩, Pci.switchEhci2Xhci space t dev)) := by
  refine (intelEhcExist_reads t.listed hs).seq fun s₁ h₁ => ?_
  unfold Pci.switchEhci2Xhci
  split
  · exact gives_pure _ h₁
  · refine (readConfReg_reads h₁ dev 0xdc#8).seq fun s₂ h₂ => ?_
    refine (writeConfReg_runs h₂ dev 0xd8#8 _).seq fun s₃ h₃ => ?_
    refine (readConfReg_reads h₃ dev 0xd4#8).seq fun s₄ h₄ => ?_
    exact writeConfReg_runs h₄ dev 0xd0#8 _

/-- The ports are taken over by a host controller of Intel. -/
theorem switchWhen_runs (hs : s.space = space) (vendorId : BitVec 16) (t : DeviceTable) :
    Runs (switchWhen (vendorId == 0x8086#16) t dev) s (some (⟨⟩,
      if vendorId = 0x8086#16 then Pci.switchEhci2Xhci space t dev else space)) := by
  by_cases hvendor : vendorId = 0x8086#16
  · rw [if_pos hvendor, beq_iff_eq.mpr hvendor]
    exact switchEhci2Xhci_runs dev hs t
  · rw [if_neg hvendor, beq_eq_false_iff_ne.mpr hvendor]
    exact gives_pure _ hs

/-- The whole part of the kernel, through the ports and on the space. -/
theorem findController_runs (hs : s.space = space) (depth fuel : ℕ) (bspLocalApicId : BitVec 8) :
    Runs (findController depth fuel bspLocalApicId) s
      (Pci.findController space depth fuel bspLocalApicId) := by
  refine (scanAllBus_reads depth .unscanned hs).bind fun r s₁ h₁ => ?_
  obtain ⟨err, t⟩ := r
  refine (lookupXHCFrom_reads t.listed none h₁).seq fun s₂ h₂ => ?_
  show Runs _ s₂ ((Pci.lookupXHCFrom space none t.listed).bind _)
  cases Pci.lookupXHCFrom space none t.listed with
  | none => exact gives_none
  | some xhcDev =>
    refine (configureMSIFixedDestination_runs h₂ xhcDev fuel bspLocalApicId .kLevel .kFixed 0x40#8
      0#32).bind fun msi s₃ => ?_
    dsimp only
    refine (readBar_reads xhcDev rfl 0#32).seq fun s₄ h₄ => ?_
    refine (readVendorId_reads h₄ _ _ _).seq fun s₅ h₅ => ?_
    refine (switchWhen_runs xhcDev h₅ _ t).seq fun s₆ h₆ => ?_
    exact gives_pure _ h₆

/-- **The kernel's use of the ports is its use of the configuration space.** Whatever address was
written before, the scan, the search for the host controller, its interrupt, its base address and
its ports come out as the functions of the configuration space say, and so does the space. -/
theorem findController_refines (s : Ports) (depth fuel : ℕ) (bspLocalApicId : BitVec 8) :
    ((findController depth fuel bspLocalApicId).run s).map (fun r => (r.1, r.2.space)) =
      Pci.findController s.space depth fuel bspLocalApicId :=
  findController_runs rfl depth fuel bspLocalApicId

end HostController

end TommyOS.Pci.Ports
