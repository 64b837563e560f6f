import TommyOS.Pci.MsiRoundTrip
import TommyOS.Pci.PortsTheorems
import TommyOS.Pci.ScanAllBus

/-!
# The host controller is found and set up

Which of the functions that can be reached `lookupXHC` takes, and what the registers hold when the
kernel has set the controller up.
-/

namespace TommyOS.Pci

open DepthFirstWalk

variable {space space' : ConfigSpace} {dev : Device}

/-! ## Which controller is taken -/

/-- A controller of Intel if there is one, otherwise one of the others. -/
theorem lookupXHCFrom_cases (space : ConfigSpace) (xhcDev : Option Device) (devices : List Device) :
    (∃ dev ∈ devices, isXhc dev = true ∧ vendorIdOf space dev = 0x8086#16 ∧
      lookupXHCFrom space xhcDev devices = some dev) ∨
    (∀ dev ∈ devices, isXhc dev = true → vendorIdOf space dev ≠ 0x8086#16) ∧
      ((∃ dev ∈ devices, isXhc dev = true ∧ lookupXHCFrom space xhcDev devices = some dev) ∨
        (∀ dev ∈ devices, isXhc dev = false) ∧
          lookupXHCFrom space xhcDev devices = xhcDev) := by
  induction devices generalizing xhcDev with
  | nil => exact .inr ⟨nofun, .inr ⟨nofun, rfl⟩⟩
  | cons dev devices ih =>
    rw [lookupXHCFrom]
    by_cases hxhc : isXhc dev = true
    · rw [if_pos hxhc]
      by_cases hvendor : vendorIdOf space dev = 0x8086#16
      · rw [if_pos hvendor]
        exact .inl ⟨dev, List.mem_cons_self, hxhc, hvendor, rfl⟩
      · rw [if_neg hvendor]
        rcases ih (some dev) with ⟨d, hd, h⟩ | ⟨hother, hrest⟩
        · exact .inl ⟨d, List.mem_cons_of_mem _ hd, h⟩
        · refine .inr ⟨List.forall_mem_cons.mpr ⟨fun _ => hvendor, hother⟩, .inl ?_⟩
          -- the last controller of the list is taken
          rcases hrest with ⟨d, hd, h⟩ | ⟨-, h⟩
          · exact ⟨d, List.mem_cons_of_mem _ hd, h⟩
          · exact ⟨dev, List.mem_cons_self, hxhc, h⟩
    · rw [if_neg hxhc]
      rw [Bool.not_eq_true] at hxhc
      rcases ih xhcDev with ⟨d, hd, h⟩ | ⟨hother, hrest⟩
      · exact .inl ⟨d, List.mem_cons_of_mem _ hd, h⟩
      · refine .inr ⟨List.forall_mem_cons.mpr ⟨fun h => ?_, hother⟩, ?_⟩
        · exact absurd h (by rw [hxhc]; decide)
        · rcases hrest with ⟨d, hd, h⟩ | ⟨hnone, h⟩
          · exact .inl ⟨d, List.mem_cons_of_mem _ hd, h⟩
          · exact .inr ⟨List.forall_mem_cons.mpr ⟨hxhc, hnone⟩, h⟩

/-- The loop finds an EHCI controller of Intel exactly when one is listed. -/
theorem intelEhcExist_iff (space : ConfigSpace) (devices : List Device) :
    intelEhcExist space devices = true ↔
      ∃ dev ∈ devices, isEhci dev = true ∧ vendorIdOf space dev = 0x8086#16 := by
  induction devices with
  | nil => exact iff_of_false Bool.false_ne_true nofun
  | cons dev devices ih =>
    rw [intelEhcExist, List.exists_mem_cons_iff, ← ih]
    by_cases h : isEhci dev = true ∧ vendorIdOf space dev = 0x8086#16
    · rw [if_pos (by rw [h.1, h.2]; decide)]
      exact iff_of_true rfl (.inl h)
    · rw [if_neg fun h' => h (by simpa using h')]
      exact ⟨.inr, fun h' => h'.resolve_left h⟩

/-! ## The registers -/

/-- The vendor is the lower half of the first register. -/
theorem vendorIdOf_eq (space : ConfigSpace) (dev : Device) :
    vendorIdOf space dev = (registers space dev 0#6 &&& 0xffff#32).setWidth 16 := by
  have hread := @readConfReg_eq space dev 0x00#8
  exact congrArg (fun r : BitVec 32 => (r &&& 0xffff#32).setWidth 16) hread

/-- The registers of the other functions stay. -/
theorem registers_of_sameElsewhere (h : SameElsewhere dev space space') {d : Device}
    (hd : selected d ≠ selected dev) : registers space' d = registers space d :=
  h _ _ _ hd

/-- The vendors stay, when the first register of the device stays. -/
theorem vendorIdOf_of_sameElsewhere (h : SameElsewhere dev space space')
    (hzero : registers space' dev 0#6 = registers space dev 0#6) (d : Device) :
    vendorIdOf space' d = vendorIdOf space d := by
  rw [vendorIdOf_eq, vendorIdOf_eq]
  by_cases hd : selected d = selected dev
  · have hsame : ∀ space : ConfigSpace, registers space d = registers space dev := fun space => by
      unfold registers
      rw [hd]
    rw [hsame, hsame, hzero]
  · rw [registers_of_sameElsewhere h hd]

/-- The base address in the first two base address registers: the bit 2 says whether it has 64
bits, the lowest 4 bits are no part of it. -/
def memoryBase (regs : BitVec 6 → BitVec 32) : BitVec 64 :=
  (if (regs 4#6).getLsbD 2 then regs 5#6 ++ regs 4#6 else (regs 4#6).setWidth 64) &&& ~~~0xf#64

/-- The test of the source for a base address of 64 bits. -/
theorem and_four_eq_zero_iff (v : BitVec 32) : v &&& 4#32 = 0#32 ↔ v.getLsbD 2 = false := by
  constructor
  · intro h
    have hbit := congrArg (fun x : BitVec 32 => x.getLsbD 2) h
    simpa using hbit
  · intro h
    apply BitVec.eq_of_getLsbD_eq
    intro i hi
    rw [BitVec.getLsbD_and, BitVec.getLsbD_zero]
    by_cases htwo : i = 2
    · rw [htwo, h, Bool.false_and]
    · have hmask : (4#32).getLsbD i = false := by
        interval_cases i
        all_goals first | rfl | exact absurd rfl htwo
      rw [hmask, Bool.and_false]

/-- The two halves of a base address. -/
theorem or_shiftLeft_eq_append (upper low : BitVec 32) :
    low.setWidth 64 ||| upper.setWidth 64 <<< 32 = upper ++ low := by
  apply BitVec.eq_of_getLsbD_eq
  intro i hi
  rw [BitVec.getLsbD_or, BitVec.getLsbD_shiftLeft, BitVec.getLsbD_setWidth, BitVec.getLsbD_setWidth,
    BitVec.getLsbD_append]
  by_cases hlow : i < 32
  · simp [hi, hlow]
  · have hzero : low.getLsbD i = false := BitVec.getLsbD_of_ge low i (by omega)
    simp [hi, hlow, hzero, show i - 32 < 64 by omega]

/-- What `ReadBar` gives for the first register, without the lowest 4 bits, is the base address. -/
theorem readBar_zero (space : ConfigSpace) (dev : Device) :
    (readBar space dev 0#32).value &&& ~~~0xf#64 = memoryBase (registers space dev) := by
  have hlow : readConfReg space dev 0x10#8 = registers space dev 4#6 := readConfReg_eq _
  have hupper : readConfReg space dev (0x10#8 + 4#8) = registers space dev 5#6 := readConfReg_eq _
  have haddr : calcBarAddress 0#32 = 0x10#8 := by decide
  unfold readBar memoryBase
  rw [if_neg (show ¬ 6#32 ≤ 0#32 by decide), haddr]
  dsimp only
  rw [hlow]
  by_cases hwide : (registers space dev 4#6).getLsbD 2 = true
  · have hbar : ¬ registers space dev 4#6 &&& 4#32 = 0#32 := fun h => by
      rw [(and_four_eq_zero_iff _).mp h] at hwide
      exact Bool.false_ne_true hwide
    rw [if_neg hbar, if_neg (show ¬ 5#32 ≤ 0#32 by decide), if_pos hwide, hupper,
      or_shiftLeft_eq_append]
  · rw [if_neg hwide]
    rw [Bool.not_eq_true] at hwide
    rw [if_pos ((and_four_eq_zero_iff _).mpr hwide)]

/-- The ports of the EHCI controller, given to the host controller. -/
def takenOver (regs : BitVec 6 → BitVec 32) : BitVec 6 → BitVec 32 :=
  Function.update (Function.update regs 54#6 (regs 55#6)) 52#6 (regs 53#6)

/-- The registers of the host controller behind the switch. -/
theorem registers_switchEhci2Xhci (t : DeviceTable) :
    registers (switchEhci2Xhci space t dev) dev =
      if intelEhcExist space t.listed then takenOver (registers space dev)
      else registers space dev := by
  unfold switchEhci2Xhci
  by_cases hexist : intelEhcExist space t.listed = true
  · have h53 : registerOf 0xd4#8 = 53#6 := by decide
    have h54 : registerOf 0xd8#8 = 54#6 := by decide
    rw [if_neg (not_not.mpr hexist), if_pos hexist]
    dsimp only
    rw [registers_writeConfReg, registers_writeConfReg, readConfReg_eq, readConfReg_eq,
      registers_writeConfReg, h53, h54, Function.update_of_ne (by decide)]
    rfl
  · rw [if_pos hexist, if_neg hexist]

/-- The switch writes to no other function. -/
theorem sameElsewhere_switchEhci2Xhci {space₀ : ConfigSpace} (h : SameElsewhere dev space₀ space)
    (t : DeviceTable) : SameElsewhere dev space₀ (switchEhci2Xhci space t dev) := by
  unfold switchEhci2Xhci
  split
  · exact h
  · exact sameElsewhere_writeConfReg (sameElsewhere_writeConfReg h _ _) _ _

/-! ## What the scan lists -/

/-- The table of a scan that succeeds. -/
theorem scanAllBus_table {depth : ℕ} (hdepth : 32 < depth) {t t' : DeviceTable}
    (hscan : scanAllBus space depth t = some (.kSuccess, t')) (d : Device) :
    d ∈ t'.listed ↔ ∃ f, Reachable space f ∧ d = f.entry space := by
  rw [scanAllBus_of_depth hdepth] at hscan
  have htable : ∀ n, 32 < n →
      t'.listed = (met (survey space n)).map (FunctionId.entry space) := by
    intro n hn
    obtain ⟨err, t₂, hrun, hlisted, herr⟩ := scanAllBus_spec space hn t
    obtain ⟨rfl, rfl⟩ := Prod.mk.injEq .. ▸ Option.some.inj (hscan.symm.trans hrun)
    have hfits : (met (survey space n)).length ≤ 32 := by
      by_contra hlong
      rw [if_neg hlong] at herr
      exact Error.noConfusion herr
    rw [hlisted, List.take_of_length_le (by rw [List.length_map]; exact hfits)]
  constructor
  · intro hd
    rw [htable 33 (by omega)] at hd
    obtain ⟨f, hf, rfl⟩ := List.mem_map.mp hd
    exact ⟨f, mem_survey_reachable hf, rfl⟩
  · rintro ⟨f, hf, rfl⟩
    -- a walk that is deep enough for the function
    obtain ⟨n, hn⟩ := exists_mem_survey hf
    rw [htable (max 33 (n + 1)) (by omega)]
    exact List.mem_map_of_mem (hn _ (by omega))

/-! ## The host controller is set up -/

/-- An EHCI controller of Intel has ports for a host controller of Intel. -/
def SharesPorts (space : ConfigSpace) (dev : Device) : Prop :=
  vendorIdOf space dev = 0x8086#16 ∧ ∃ g, Reachable space g ∧
    isEhci (g.entry space) = true ∧ vendorIdOf space (g.entry space) = 0x8086#16

/-- The registers with the interrupt set up. -/
def withInterrupt (regs : BitVec 6 → BitVec 32) (capAddr apicId : BitVec 8) :
    BitVec 6 → BitVec 32 :=
  writtenRegisters regs capAddr (0xfee00000#32 ||| apicId.setWidth 32 <<< 12) 0xc040#32 0#32

/-- What the kernel leaves in the configuration space. -/
structure SetUpFrom (space : ConfigSpace) (dev : Device) (capAddr apicId : BitVec 8)
    (space' : ConfigSpace) : Prop where
  elsewhere : SameElsewhere dev space space'
  shared : SharesPorts space dev →
    registers space' dev = takenOver (withInterrupt (registers space dev) capAddr apicId)
  unshared : ¬ SharesPorts space dev →
    registers space' dev = withInterrupt (registers space dev) capAddr apicId

/-- The header of the device has no word of the capability. -/
theorem withInterrupt_header {regs : BitVec 6 → BitVec 32} {caps : List (BitVec 8)}
    {capAddr : BitVec 8} (hcaps : HasOneMsi regs caps capAddr) (hlow : 64 ≤ capAddr.toNat)
    (apicId : BitVec 8) {r : BitVec 6} (hr : r.toNat < 16) :
    withInterrupt regs capAddr apicId r = regs r := by
  have hword : ∀ k, k < msiWords (msiHeader regs capAddr) → r ≠ capWord capAddr k := by
    rintro k hk rfl
    have hfits : capAddr.toNat + 4 * msiWords (msiHeader regs capAddr) ≤ 256 := hcaps.fits
    unfold capWord registerOf at hr
    rw [BitVec.toNat_add, BitVec.extractLsb'_toNat, BitVec.toNat_ofNat,
      Nat.shiftRight_eq_div_pow] at hr
    omega
  obtain ⟨hge, hlt, -⟩ := dataWord_range (msiHeader regs capAddr)
  exact writtenRegisters_of_ne _ _ _ _ _ (hword 0 (by omega)) (hword 1 (by omega))
    (hword _ hlt)

section SetUp

variable {caps : List (BitVec 8)} {capAddr : BitVec 8} (apicId : BitVec 8)

/-- The interrupt of a device with one MSI capability. -/
theorem configureMSIFixedDestination_sets {fuel : ℕ}
    (hcaps : HasOneMsi (registers space dev) caps capAddr) (hfuel : caps.length < fuel) :
    ∃ space₁, configureMSIFixedDestination space fuel dev apicId .kLevel .kFixed 0x40#8 0#32 =
        some (.kSuccess, space₁) ∧ SameElsewhere dev space space₁ ∧
      registers space₁ dev = withInterrupt (registers space dev) capAddr apicId :=
  ⟨_, configureMSI_eq hcaps hfuel _ _ _, sameElsewhere_writeMSICapability _ _,
    registers_configureMSIRegister _ _ _ _⟩

/-- The ports are taken over by a controller of Intel, from an EHCI controller of Intel. -/
theorem setUpFrom_switch {t : DeviceTable} {space₁ : ConfigSpace}
    (hlisted : ∀ d, d ∈ t.listed ↔ ∃ f, Reachable space f ∧ d = f.entry space)
    (helse : SameElsewhere dev space space₁)
    (hvendor : ∀ d, vendorIdOf space₁ d = vendorIdOf space d)
    (hregs : registers space₁ dev = withInterrupt (registers space dev) capAddr apicId) :
    SetUpFrom space dev capAddr apicId
      (if vendorIdOf space₁ dev = 0x8086#16 then switchEhci2Xhci space₁ t dev else space₁) := by
  have hexist : intelEhcExist space₁ t.listed = true ↔ ∃ g, Reachable space g ∧
      isEhci (g.entry space) = true ∧ vendorIdOf space (g.entry space) = 0x8086#16 := by
    rw [intelEhcExist_iff]
    constructor
    · rintro ⟨d, hd, hehci, hintel⟩
      obtain ⟨g, hg, rfl⟩ := (hlisted d).mp hd
      exact ⟨g, hg, hehci, (hvendor _).symm.trans hintel⟩
    · rintro ⟨g, hg, hehci, hintel⟩
      exact ⟨_, (hlisted _).mpr ⟨g, hg, rfl⟩, hehci, (hvendor _).trans hintel⟩
  rw [hvendor]
  by_cases hintel : vendorIdOf space dev = 0x8086#16
  · rw [if_pos hintel]
    constructor
    · exact sameElsewhere_switchEhci2Xhci helse t
    · intro hshared
      rw [registers_switchEhci2Xhci, if_pos (hexist.mpr hshared.2), hregs]
    · intro hunshared
      rw [registers_switchEhci2Xhci, if_neg fun h => hunshared ⟨hintel, hexist.mp h⟩, hregs]
  · rw [if_neg hintel]
    exact ⟨helse, fun h => absurd h.1 hintel, fun _ => hregs⟩

/-- What comes out for the device that `lookupXHC` takes. -/
theorem findController_eq {depth fuel : ℕ} {t : DeviceTable} (hdepth : 32 < depth)
    (hscan : scanAllBus space depth .unscanned = some (.kSuccess, t))
    (hxhc : lookupXHC space t = some dev) (hcaps : HasOneMsi (registers space dev) caps capAddr)
    (hfuel : caps.length < fuel) (hlow : 64 ≤ capAddr.toNat) :
    ∃ space', findController space depth fuel apicId =
        some (⟨dev, .kSuccess, memoryBase (registers space dev)⟩, space') ∧
      SetUpFrom space dev capAddr apicId space' := by
  obtain ⟨space₁, hmsi, helse, hregs⟩ :=
    configureMSIFixedDestination_sets apicId hcaps hfuel
  have hheader : ∀ r : BitVec 6, r.toNat < 16 → registers space₁ dev r = registers space dev r :=
    fun r hr => by rw [hregs, withInterrupt_header hcaps hlow apicId hr]
  have hvendor := vendorIdOf_of_sameElsewhere helse (hheader 0#6 (by decide))
  have hbase : (readBar space₁ dev 0#32).value &&& ~~~0xf#64 =
      memoryBase (registers space dev) := by
    rw [readBar_zero]
    unfold memoryBase
    rw [hheader 4#6 (by decide), hheader 5#6 (by decide)]
  refine ⟨_, ?_, setUpFrom_switch apicId (scanAllBus_table hdepth hscan) helse hvendor hregs⟩
  rw [findController, hscan]
  show (lookupXHC space t).bind _ = _
  rw [hxhc]
  show (configureMSIFixedDestination space fuel dev apicId .kLevel .kFixed 0x40#8 0#32).bind _ = _
  rw [hmsi, ← hbase]
  rfl

end SetUp

/-- **The host controller is found and set up through the ports.** For every configuration space
behind the ports whose scan succeeds, with a host controller among the functions that can be
reached, and one MSI capability behind the header of each such controller: the kernel takes one of
them, one of Intel if there is one; the base address is the one in its base address registers; its
interrupt is set up, and the ports of an Intel EHCI controller are taken over exactly when there is
one; and no other function and no other register is written. -/
theorem findController_on_ports {s : Ports} {depth fuel : ℕ} {apicId : BitVec 8} {t : DeviceTable}
    (hdepth : 32 < depth) (hscan : scanAllBus s.space depth .unscanned = some (.kSuccess, t))
    (hxhc : ∃ f, Reachable s.space f ∧ isXhc (f.entry s.space) = true)
    (hcaps : ∀ f, Reachable s.space f → isXhc (f.entry s.space) = true →
      ∃ caps capAddr, HasOneMsi (registers s.space (f.entry s.space)) caps capAddr ∧
        caps.length < fuel ∧ 64 ≤ capAddr.toNat) :
    ∃ f caps capAddr s', Reachable s.space f ∧ isXhc (f.entry s.space) = true ∧
      ((∃ g, Reachable s.space g ∧ isXhc (g.entry s.space) = true ∧
          vendorIdOf s.space (g.entry s.space) = 0x8086#16) →
        vendorIdOf s.space (f.entry s.space) = 0x8086#16) ∧
      HasOneMsi (registers s.space (f.entry s.space)) caps capAddr ∧
      (Ports.findController depth fuel apicId).run s = some (⟨f.entry s.space, .kSuccess,
        memoryBase (registers s.space (f.entry s.space))⟩, s') ∧
      SetUpFrom s.space (f.entry s.space) capAddr apicId s'.space := by
  have hlisted := scanAllBus_table hdepth hscan
  -- the device that is taken
  have htaken : ∃ f, Reachable s.space f ∧ isXhc (f.entry s.space) = true ∧
      lookupXHC s.space t = some (f.entry s.space) ∧
      ((∃ g, Reachable s.space g ∧ isXhc (g.entry s.space) = true ∧
          vendorIdOf s.space (g.entry s.space) = 0x8086#16) →
        vendorIdOf s.space (f.entry s.space) = 0x8086#16) := by
    rcases lookupXHCFrom_cases s.space none t.listed with
      ⟨d, hd, hclass, hintel, hlookup⟩ | ⟨hother, ⟨d, hd, hclass, hlookup⟩ | ⟨hnone, -⟩⟩
    · obtain ⟨f, hf, rfl⟩ := (hlisted d).mp hd
      exact ⟨f, hf, hclass, hlookup, fun _ => hintel⟩
    · obtain ⟨f, hf, rfl⟩ := (hlisted d).mp hd
      refine ⟨f, hf, hclass, hlookup, ?_⟩
      rintro ⟨g, hg, hgclass, hgintel⟩
      exact absurd hgintel (hother _ ((hlisted _).mpr ⟨g, hg, rfl⟩) hgclass)
    · obtain ⟨f, hf, hclass⟩ := hxhc
      have hno := hnone _ ((hlisted _).mpr ⟨f, hf, rfl⟩)
      exact absurd hclass (by rw [hno]; decide)
  obtain ⟨f, hf, hclass, hlookup, hintel⟩ := htaken
  obtain ⟨caps, capAddr, hmsi, hfuel, hlow⟩ := hcaps f hf hclass
  obtain ⟨space', hrun, hsetUp⟩ := findController_eq apicId hdepth hscan hlookup hmsi
    hfuel hlow
  have hports := Ports.findController_runs (s := s) rfl depth fuel apicId
  rw [hrun] at hports
  obtain ⟨⟨found, s'⟩, hrun', hresult⟩ := Option.map_eq_some_iff.mp hports
  obtain ⟨rfl, rfl⟩ := Prod.mk.inj hresult
  exact ⟨f, caps, capAddr, s', hf, hclass, hintel, hmsi, hrun', hsetUp⟩

/-! A host bridge, a host controller of Intel whose registers are above 4 GiB, and an EHCI
controller of Intel. -/

/-- A host bridge, a host controller of Intel with one MSI capability, and an EHCI controller of
Intel. -/
def exampleSpace : ConfigSpace := fun bus device function register =>
  if bus = 0#8 ∧ function = 0#3 ∧ (device = 0#5 ∨ device = 3#5 ∨ device = 5#5) then
    if register = 0#6 then 0x8086#32
    else if register = 2#6 then
      if device = 0#5 then 0x06000000#32 else if device = 3#5 then 0x0c033000#32 else 0x0c032000#32
    else if register = 4#6 then 0xfebf0004#32
    else if register = 5#6 then 1#32
    else if register = 13#6 then 0x50#32
    else if register = 20#6 then 0x00800005#32
    else 0#32
  else 0xffffffff#32

/-- The host controller among them. -/
def exampleXhc : Device := ⟨0#8, 3#8, 0#8, 0#8, ⟨0x0c#8, 0x03#8, 0x30#8⟩⟩

theorem exampleSpace_scan :
    (scanAllBus exampleSpace 33 DeviceTable.unscanned).map (fun r => (r.1, r.2.listed)) =
      some (.kSuccess, [⟨0#8, 0#8, 0#8, 0#8, ⟨0x06#8, 0x00#8, 0x00#8⟩⟩, exampleXhc,
        ⟨0#8, 5#8, 0#8, 0#8, ⟨0x0c#8, 0x03#8, 0x20#8⟩⟩]) := by
  decide +kernel

theorem exampleXhc_hasOneMsi : HasOneMsi (registers exampleSpace exampleXhc) [0x50#8] 0x50#8 := by
  constructor
  · exact .cons (by decide) (by decide) .nil
  · decide
  · decide

theorem findController_on_ports_example :
    ∃ f caps capAddr s', Reachable exampleSpace f ∧ isXhc (f.entry exampleSpace) = true ∧
      ((∃ g, Reachable exampleSpace g ∧ isXhc (g.entry exampleSpace) = true ∧
          vendorIdOf exampleSpace (g.entry exampleSpace) = 0x8086#16) →
        vendorIdOf exampleSpace (f.entry exampleSpace) = 0x8086#16) ∧
      HasOneMsi (registers exampleSpace (f.entry exampleSpace)) caps capAddr ∧
      (Ports.findController 33 2 0#8).run ⟨0#32, exampleSpace⟩ = some (⟨f.entry exampleSpace,
        .kSuccess, memoryBase (registers exampleSpace (f.entry exampleSpace))⟩, s') ∧
      SetUpFrom exampleSpace (f.entry exampleSpace) capAddr 0#8 s'.space := by
  obtain ⟨⟨err, t⟩, hscan, hresult⟩ := Option.map_eq_some_iff.mp exampleSpace_scan
  obtain ⟨rfl, hlisted⟩ := Prod.mk.inj hresult
  have htable := scanAllBus_table (by decide) hscan
  rw [hlisted] at htable
  have honly : ∀ f, Reachable exampleSpace f → isXhc (f.entry exampleSpace) = true →
      f.entry exampleSpace = exampleXhc := by
    intro f hf hclass
    have hmem := (htable _).mpr ⟨f, hf, rfl⟩
    simp only [List.mem_cons, List.not_mem_nil, or_false] at hmem
    rcases hmem with h | h | h
    · exact absurd hclass (by rw [h]; decide)
    · exact h
    · exact absurd hclass (by rw [h]; decide)
  obtain ⟨f, hf, hentry⟩ := (htable exampleXhc).mp (by decide)
  refine findController_on_ports (s := ⟨0#32, exampleSpace⟩) (by decide) hscan
    ⟨f, hf, by rw [← hentry]; decide⟩
    fun g hg hclass => ⟨[0x50#8], 0x50#8, ?_, by decide, by decide⟩
  rw [show g.entry (Ports.mk 0#32 exampleSpace).space = exampleXhc from honly g hg hclass]
  exact exampleXhc_hasOneMsi

end TommyOS.Pci
