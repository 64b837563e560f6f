import TommyOS.Pci.Msi
import Mathlib.Data.List.Basic
import Mathlib.Tactic.IntervalCases

/-!
# What configuring MSI does to the registers of a device

Reads and writes go to the registers of one function. The capability found is the one of the
list, and of its words the header, the address and the data are written.
-/

namespace TommyOS.Pci

variable {space : ConfigSpace} {dev : Device}

/-! ## The registers of a device -/

/-- The bus, device and function that the addresses of a device select. -/
def selected (dev : Device) : BitVec 8 × BitVec 5 × BitVec 3 :=
  let address := makeAddress dev.bus dev.device dev.function 0#8
  (address.extractLsb' 16 8, address.extractLsb' 11 5, address.extractLsb' 8 3)

/-- The registers of one function. -/
def registers (space : ConfigSpace) (dev : Device) : BitVec 6 → BitVec 32 :=
  space (selected dev).1 (selected dev).2.1 (selected dev).2.2

/-- The register of a byte address in the space of a device. -/
def registerOf (regAddr : BitVec 8) : BitVec 6 := regAddr.extractLsb' 2 6

/-- The offset only selects the register. -/
theorem makeAddress_fields (dev : Device) (offset : BitVec 8) :
    (makeAddress dev.bus dev.device dev.function offset).getLsbD 31 = true ∧
      (makeAddress dev.bus dev.device dev.function offset).extractLsb' 16 8 = (selected dev).1 ∧
      (makeAddress dev.bus dev.device dev.function offset).extractLsb' 11 5 = (selected dev).2.1 ∧
      (makeAddress dev.bus dev.device dev.function offset).extractLsb' 8 3 = (selected dev).2.2 ∧
      (makeAddress dev.bus dev.device dev.function offset).extractLsb' 2 6 = registerOf offset := by
  refine ⟨by simp [makeAddress], ?_, ?_, ?_, ?_⟩
  all_goals
    apply BitVec.eq_of_getLsbD_eq
    intro i hi
    unfold makeAddress
    interval_cases i <;> simp [registerOf, selected, makeAddress]

theorem readConfReg_eq (regAddr : BitVec 8) :
    readConfReg space dev regAddr = registers space dev (registerOf regAddr) := by
  obtain ⟨henable, hbus, hdevice, hfunction, hregister⟩ := makeAddress_fields dev regAddr
  unfold readConfReg readData
  rw [if_pos henable, hbus, hdevice, hfunction, hregister]
  rfl

/-- A write changes one register of the function. -/
theorem registers_writeConfReg (regAddr : BitVec 8) (value : BitVec 32) :
    registers (writeConfReg space dev regAddr value) dev =
      Function.update (registers space dev) (registerOf regAddr) value := by
  obtain ⟨henable, hbus, hdevice, hfunction, hregister⟩ := makeAddress_fields dev regAddr
  funext r
  unfold registers writeConfReg writeData
  simp only [henable, hbus, hdevice, hfunction, hregister, true_and, Function.update_apply]

theorem registers_ite (c : Prop) [Decidable c] (a b : ConfigSpace) :
    registers (if c then a else b) dev = if c then registers a dev else registers b dev := by
  split
  · rfl
  · rfl

/-- The registers of the other functions. -/
def SameElsewhere (dev : Device) (space space' : ConfigSpace) : Prop :=
  ∀ bus device function, (bus, device, function) ≠ selected dev →
    space' bus device function = space bus device function

/-- A write through a device leaves the other functions alone. -/
theorem sameElsewhere_writeConfReg {space₀ : ConfigSpace} (h : SameElsewhere dev space₀ space)
    (regAddr : BitVec 8) (value : BitVec 32) :
    SameElsewhere dev space₀ (writeConfReg space dev regAddr value) := by
  obtain ⟨-, hbus, hdevice, hfunction, -⟩ := makeAddress_fields dev regAddr
  intro bus device function hne
  rw [← h bus device function hne]
  funext r
  unfold writeConfReg writeData
  rw [if_neg]
  rw [hbus, hdevice, hfunction]
  rintro ⟨-, hb, hd, hf, -⟩
  exact hne (Prod.ext hb (Prod.ext hd hf))

/-! ## The capability list -/

/-- The entries of the capability list from a pointer on, each aligned to a double word. A
list that ends has no cycle. -/
inductive IsCapabilityList (regs : BitVec 6 → BitVec 32) : BitVec 8 → List (BitVec 8) → Prop where
  | nil : IsCapabilityList regs 0#8 []
  | cons {p : BitVec 8} {rest : List (BitVec 8)} : p ≠ 0#8 → p.toNat % 4 = 0 →
      IsCapabilityList regs (CapabilityHeader.nextPtr ⟨regs (registerOf p)⟩) rest →
      IsCapabilityList regs p (p :: rest)

/-- Whether the entry at an address is an MSI capability. -/
def isMsi (regs : BitVec 6 → BitVec 32) (p : BitVec 8) : Bool :=
  CapabilityHeader.capId ⟨regs (registerOf p)⟩ == kCapabilityMSI

/-- The words of an MSI capability: the header, the address, its upper half if it is 64 bits
wide, the data, and the mask and pending bits if there is a mask. -/
def msiWords (h : CapabilityHeader) : ℕ :=
  3 + (if h.addr64Capable then 1 else 0) + if h.perVectorMaskCapable then 2 else 0

/-- The capability list has one MSI capability, inside the 256 bytes. -/
structure HasOneMsi (regs : BitVec 6 → BitVec 32) (caps : List (BitVec 8)) (capAddr : BitVec 8) :
    Prop where
  list : IsCapabilityList regs ((regs (registerOf 0x34#8)).extractLsb' 0 8) caps
  one : caps.filter (isMsi regs) = [capAddr]
  fits : capAddr.toNat + 4 * msiWords ⟨regs (registerOf capAddr)⟩ ≤ 256

theorem IsCapabilityList.ne_zero {regs : BitVec 6 → BitVec 32} {p : BitVec 8}
    {caps : List (BitVec 8)} (h : IsCapabilityList regs p caps) : ∀ c ∈ caps, c ≠ 0#8 := by
  induction h with
  | nil =>
    intro c hc
    exact absurd hc List.not_mem_nil
  | cons hp _ _ ih =>
    intro c hc
    rcases List.mem_cons.mp hc with rfl | hc'
    · exact hp
    · exact ih c hc'

/-- The loop finds the last MSI capability of the list. -/
theorem findCapabilities_spec {p : BitVec 8} {caps : List (BitVec 8)}
    (h : IsCapabilityList (registers space dev) p caps) :
    ∀ (fuel : ℕ) (msiCapAddr msixCapAddr : BitVec 8), caps.length < fuel →
      ∃ msix, findCapabilities space dev fuel p msiCapAddr msixCapAddr =
        some (((caps.filter (isMsi (registers space dev))).getLast?).getD msiCapAddr, msix) := by
  induction h with
  | nil =>
    intro fuel msi msix hfuel
    obtain ⟨fuel, rfl⟩ := Nat.exists_eq_succ_of_ne_zero (Nat.ne_of_gt hfuel)
    exact ⟨msix, rfl⟩
  | @cons p rest hp _ _ ih =>
    intro fuel msi msix hfuel
    obtain ⟨fuel, rfl⟩ := Nat.exists_eq_succ_of_ne_zero (Nat.ne_of_gt (Nat.zero_lt_of_lt hfuel))
    have hfuel' : rest.length < fuel := Nat.lt_of_succ_lt_succ hfuel
    unfold findCapabilities readCapabilityHeader
    rw [if_neg hp, readConfReg_eq]
    -- a later MSI capability takes the place of an earlier one
    by_cases hmsi : isMsi (registers space dev) p = true
    · rw [List.filter_cons_of_pos hmsi, List.getLast?_cons, if_pos (eq_of_beq hmsi)]
      exact ih fuel p msix hfuel'
    · have hid : ¬ CapabilityHeader.capId ⟨registers space dev (registerOf p)⟩ = kCapabilityMSI :=
        fun heq => hmsi (beq_iff_eq.mpr heq)
      rw [List.filter_cons_of_neg hmsi]
      simp only [if_neg hid]
      split
      · exact ih fuel msi p hfuel'
      · exact ih fuel msi msix hfuel'

/-! ## The header -/

section Header

variable (h : CapabilityHeader)

/-- The header that `ConfigureMSIRegister` writes. -/
def configuredHeader (h : CapabilityHeader) (numVectorExponent : BitVec 32) : CapabilityHeader :=
  (if h.multiMsgCapable.setWidth 32 ≤ numVectorExponent then h.setMultiMsgEnable h.multiMsgCapable
    else h.setMultiMsgEnable (numVectorExponent.setWidth 3)).setMsiEnable 1#1

theorem getLsbD_setMultiMsgEnable (value : BitVec 3) {i : ℕ} (hi : i < 32) :
    (h.setMultiMsgEnable value).data.getLsbD i =
      if 20 ≤ i ∧ i < 23 then value.getLsbD (i - 20) else h.data.getLsbD i := by
  unfold CapabilityHeader.setMultiMsgEnable
  interval_cases i <;> simp

theorem getLsbD_setMsiEnable (value : BitVec 1) {i : ℕ} (hi : i < 32) :
    (h.setMsiEnable value).data.getLsbD i =
      if i = 16 then value.getLsbD 0 else h.data.getLsbD i := by
  unfold CapabilityHeader.setMsiEnable
  interval_cases i <;> simp

theorem msiEnable_setMsiEnable (value : BitVec 1) : (h.setMsiEnable value).msiEnable = value := by
  apply BitVec.eq_of_getLsbD_eq
  intro i hi
  have hzero : i = 0 := by omega
  unfold CapabilityHeader.msiEnable
  rw [BitVec.getLsbD_extractLsb', hzero, getLsbD_setMsiEnable _ _ (by omega)]
  rfl

/-- The two fields are apart. -/
theorem multiMsgEnable_configured (value : BitVec 3) (enable : BitVec 1) :
    ((h.setMultiMsgEnable value).setMsiEnable enable).multiMsgEnable = value := by
  apply BitVec.eq_of_getLsbD_eq
  intro i hi
  unfold CapabilityHeader.multiMsgEnable
  rw [BitVec.getLsbD_extractLsb', getLsbD_setMsiEnable _ _ (by omega), if_neg (by omega),
    getLsbD_setMultiMsgEnable _ _ (by omega), if_pos (by omega), Nat.add_sub_cancel_left,
    decide_eq_true hi, Bool.true_and]

/-- The value the enable field gets: the smaller of the exponent and what the device can do. -/
theorem exists_configuredHeader (numVectorExponent : BitVec 32)
    (hnum : numVectorExponent.toNat ≤ 5) :
    ∃ value : BitVec 3, value.toNat = min h.multiMsgCapable.toNat numVectorExponent.toNat ∧
      configuredHeader h numVectorExponent = (h.setMultiMsgEnable value).setMsiEnable 1#1 := by
  have hcapable := h.multiMsgCapable.isLt
  have hwidth : (h.multiMsgCapable.setWidth 32).toNat = h.multiMsgCapable.toNat := by
    rw [BitVec.toNat_setWidth, Nat.mod_eq_of_lt (by omega)]
  unfold configuredHeader
  by_cases hle : h.multiMsgCapable.setWidth 32 ≤ numVectorExponent
  · have hle' : h.multiMsgCapable.toNat ≤ numVectorExponent.toNat := by
      rw [← hwidth]
      exact BitVec.le_def.mp hle
    exact ⟨h.multiMsgCapable, (Nat.min_eq_left hle').symm, by rw [if_pos hle]⟩
  · have hlt : numVectorExponent.toNat < h.multiMsgCapable.toNat := by
      rw [← hwidth]
      exact Nat.lt_of_not_le fun h => hle (BitVec.le_def.mpr h)
    refine ⟨numVectorExponent.setWidth 3, ?_, by rw [if_neg hle]⟩
    rw [BitVec.toNat_setWidth, Nat.mod_eq_of_lt (by omega), Nat.min_eq_right (by omega)]

end Header

/-! ## The registers written -/

/-- Four bytes on is the next register, also behind the end of the space. -/
theorem registerOf_add (a : BitVec 8) (k : ℕ) :
    registerOf (a + BitVec.ofNat 8 (4 * k)) = registerOf a + BitVec.ofNat 6 k := by
  unfold registerOf
  apply BitVec.eq_of_toNat_eq
  simp only [BitVec.extractLsb'_toNat, BitVec.toNat_add, BitVec.toNat_ofNat,
    Nat.shiftRight_eq_div_pow]
  omega

/-- Words of a capability at different places are different registers. -/
theorem add_ofNat_ne (c : BitVec 6) {i j : ℕ} (hi : i < 64) (hj : j < 64) (hne : i ≠ j) :
    c + BitVec.ofNat 6 i ≠ c + BitVec.ofNat 6 j := by
  intro h
  have heq := congrArg BitVec.toNat ((BitVec.add_right_inj c).mp h)
  rw [BitVec.toNat_ofNat, BitVec.toNat_ofNat, Nat.mod_eq_of_lt hi, Nat.mod_eq_of_lt hj] at heq
  exact hne heq

/-- Word `k` of the capability at an address. -/
def capWord (capAddr : BitVec 8) (k : ℕ) : BitVec 6 := registerOf capAddr + BitVec.ofNat 6 k

/-- The words of a capability are different registers. -/
theorem capWord_ne (capAddr : BitVec 8) {i j : ℕ} (hi : i < 6) (hj : j < 6) (hne : i ≠ j) :
    capWord capAddr i ≠ capWord capAddr j :=
  add_ofNat_ne _ (by omega) (by omega) hne

/-- The words of a capability are written apart from each other. -/
theorem update_capWord {capAddr : BitVec 8} {regs : BitVec 6 → BitVec 32} {value : BitVec 32}
    {i j : ℕ} (hi : i < 6) (hj : j < 6) (hne : i ≠ j) :
    Function.update regs (capWord capAddr j) value (capWord capAddr i) =
      regs (capWord capAddr i) :=
  Function.update_of_ne (capWord_ne capAddr hi hj hne) _ _

theorem registerOf_eq_capWord (capAddr : BitVec 8) : registerOf capAddr = capWord capAddr 0 :=
  (BitVec.add_zero _).symm

/-- The word of the message data. -/
def dataWord (h : CapabilityHeader) : ℕ := if h.addr64Capable then 3 else 2

section ConfigureMSIRegister

variable (capAddr : BitVec 8) (msgAddr msgData numVectorExponent : BitVec 32)

theorem configuredHeader_layout (h : CapabilityHeader) :
    (configuredHeader h numVectorExponent).addr64Capable = h.addr64Capable ∧
      (configuredHeader h numVectorExponent).perVectorMaskCapable = h.perVectorMaskCapable := by
  have hkeep : ∀ (value : BitVec 3) (i : ℕ), 23 ≤ i → i < 32 →
      ((h.setMultiMsgEnable value).setMsiEnable 1#1).data.getLsbD i = h.data.getLsbD i := by
    intro value i hge hi
    rw [getLsbD_setMsiEnable _ _ hi, if_neg (by omega), getLsbD_setMultiMsgEnable _ _ hi,
      if_neg (by omega)]
  unfold configuredHeader CapabilityHeader.addr64Capable CapabilityHeader.perVectorMaskCapable
  split
  · exact ⟨hkeep _ 23 (by omega) (by omega), hkeep _ 24 (by omega) (by omega)⟩
  · exact ⟨hkeep _ 23 (by omega) (by omega), hkeep _ 24 (by omega) (by omega)⟩

/-- The address of the message data. -/
theorem registerOf_msgDataAddr (h : CapabilityHeader) (k : ℕ) :
    registerOf ((if h.addr64Capable then capAddr + 12#8 else capAddr + 8#8) +
      BitVec.ofNat 8 (4 * k)) = capWord capAddr (dataWord h + k) := by
  rw [registerOf_add]
  unfold dataWord capWord
  split
  · rw [show registerOf (capAddr + 12#8) = _ from registerOf_add capAddr 3, BitVec.ofNat_add,
      BitVec.add_assoc]
  · rw [show registerOf (capAddr + 8#8) = _ from registerOf_add capAddr 2, BitVec.ofNat_add,
      BitVec.add_assoc]

/-- The fields by the words of the capability. -/
theorem readMSICapability_eq :
    readMSICapability space dev capAddr =
      let word k := registers space dev (capWord capAddr k)
      let header : CapabilityHeader := ⟨registers space dev (registerOf capAddr)⟩
      { header := header
        msgAddr := word 1
        msgUpperAddr := if header.addr64Capable then word 2 else 0#32
        msgData := word (dataWord header)
        maskBits := if header.perVectorMaskCapable then word (dataWord header + 1) else 0#32
        pendingBits :=
          if header.perVectorMaskCapable then word (dataWord header + 2) else 0#32 } := by
  have haddr : registerOf (capAddr + 4#8) = capWord capAddr 1 := registerOf_add capAddr 1
  have hupper : registerOf (capAddr + 8#8) = capWord capAddr 2 := registerOf_add capAddr 2
  have hdata := fun h => registerOf_msgDataAddr capAddr h 0
  have hmask := fun h => registerOf_msgDataAddr capAddr h 1
  have hpending := fun h => registerOf_msgDataAddr capAddr h 2
  simp only [Nat.mul_zero, Nat.mul_one, BitVec.add_zero, Nat.add_zero] at hdata hmask hpending
  unfold readMSICapability
  simp only [readConfReg_eq, haddr, hupper, hdata, hmask]
  simp only [show (8#8 : BitVec 8) = BitVec.ofNat 8 (4 * 2) from rfl, hpending]

/-- The words that are written, the last one on the outside. -/
theorem registers_writeMSICapability (msiCap : MSICapability) :
    registers (writeMSICapability space dev capAddr msiCap) dev =
      let head := Function.update (Function.update (registers space dev) (capWord capAddr 0)
        msiCap.header.data) (capWord capAddr 1) msiCap.msgAddr
      let address :=
        if msiCap.header.addr64Capable then
          Function.update head (capWord capAddr 2) msiCap.msgUpperAddr
        else head
      let data := Function.update address (capWord capAddr (dataWord msiCap.header)) msiCap.msgData
      if msiCap.header.perVectorMaskCapable then
        Function.update (Function.update data (capWord capAddr (dataWord msiCap.header + 1))
          msiCap.maskBits) (capWord capAddr (dataWord msiCap.header + 2)) msiCap.pendingBits
      else data := by
  have haddr : registerOf (capAddr + 4#8) = capWord capAddr 1 := registerOf_add capAddr 1
  have hupper : registerOf (capAddr + 8#8) = capWord capAddr 2 := registerOf_add capAddr 2
  have hdata := registerOf_msgDataAddr capAddr msiCap.header 0
  have hmask := registerOf_msgDataAddr capAddr msiCap.header 1
  have hpending := registerOf_msgDataAddr capAddr msiCap.header 2
  simp only [Nat.mul_zero, Nat.mul_one, BitVec.add_zero, Nat.add_zero] at hdata hmask hpending
  have hpending' : registerOf ((if msiCap.header.addr64Capable = true then capAddr + 12#8
      else capAddr + 8#8) + 8#8) = capWord capAddr (dataWord msiCap.header + 2) := hpending
  unfold writeMSICapability
  simp only [registers_ite, registers_writeConfReg, registerOf_eq_capWord capAddr, haddr, hupper,
    hdata, hmask, hpending']

/-- A word that is written with what it holds. -/
theorem update_own {G : BitVec 6 → BitVec 32} {x : BitVec 6} {v : BitVec 32} (h : G x = v) :
    Function.update G x v = G := by
  rw [← h, Function.update_eq_self]

/-- The header, the address and the data are written; the upper half of the address and the
mask and pending bits are written with what was read. -/
theorem registers_configureMSIRegister :
    registers (configureMSIRegister space dev capAddr msgAddr msgData numVectorExponent).2 dev =
      let regs := registers space dev
      let header : CapabilityHeader := ⟨regs (registerOf capAddr)⟩
      Function.update (Function.update (Function.update regs (capWord capAddr 0)
        (configuredHeader header numVectorExponent).data) (capWord capAddr 1) msgAddr)
        (capWord capAddr (dataWord header)) msgData := by
  obtain ⟨h64, hmask⟩ := configuredHeader_layout numVectorExponent
    ⟨registers space dev (registerOf capAddr)⟩
  have hdata : dataWord (configuredHeader ⟨registers space dev (registerOf capAddr)⟩
      numVectorExponent) = dataWord ⟨registers space dev (registerOf capAddr)⟩ := by
    unfold dataWord
    rw [h64]
  unfold configureMSIRegister
  rw [readMSICapability_eq]
  show registers (writeMSICapability space dev capAddr
    { header := configuredHeader ⟨registers space dev (registerOf capAddr)⟩ numVectorExponent
      msgAddr := msgAddr, msgUpperAddr := _, msgData := msgData, maskBits := _,
      pendingBits := _ }) dev = _
  rw [registers_writeMSICapability]
  simp only [h64, hmask, hdata]
  generalize (⟨registers space dev (registerOf capAddr)⟩ : CapabilityHeader) = header
  generalize registers space dev = regs
  have hrange : 2 ≤ dataWord header ∧ dataWord header ≤ 3 := by
    unfold dataWord
    split
    · omega
    · omega
  -- the words that are written with their own value
  have hupper : (if header.addr64Capable = true then
      Function.update (Function.update (Function.update regs (capWord capAddr 0)
        (configuredHeader header numVectorExponent).data) (capWord capAddr 1) msgAddr)
        (capWord capAddr 2) (if header.addr64Capable = true then regs (capWord capAddr 2) else 0#32)
      else Function.update (Function.update regs (capWord capAddr 0)
        (configuredHeader header numVectorExponent).data) (capWord capAddr 1) msgAddr) =
      Function.update (Function.update regs (capWord capAddr 0)
        (configuredHeader header numVectorExponent).data) (capWord capAddr 1) msgAddr := by
    split
    · apply update_own
      rw [update_capWord (by omega) (by omega) (by omega),
        update_capWord (by omega) (by omega) (by omega)]
    · rfl
  rw [hupper]
  split
  · rw [update_own, update_own]
    · simp (disch := omega) only [update_capWord]
    · simp (disch := omega) only [update_capWord]
  · rfl

end ConfigureMSIRegister

/-! ## Configuration -/

/-- The header of the capability. -/
def msiHeader (regs : BitVec 6 → BitVec 32) (capAddr : BitVec 8) : CapabilityHeader :=
  ⟨regs (registerOf capAddr)⟩

/-- The address messages are sent to: all 64 bits where the capability has them. -/
def messageAddress (regs : BitVec 6 → BitVec 32) (capAddr : BitVec 8) : BitVec 64 :=
  (if (msiHeader regs capAddr).addr64Capable then regs (capWord capAddr 2) else 0#32) ++
    regs (capWord capAddr 1)

/-- The capability at an address is set up for messages to an APIC, and nothing else has
changed. -/
structure MsiConfigured (regs regs' : BitVec 6 → BitVec 32) (capAddr apicId : BitVec 8)
    (triggerMode : MSITriggerMode) (deliveryMode : MSIDeliveryMode) (vector : BitVec 8)
    (numVectorExponent : BitVec 32) : Prop where
  enable : (msiHeader regs' capAddr).msiEnable = 1#1
  multi : (msiHeader regs' capAddr).multiMsgEnable.toNat =
    min (msiHeader regs capAddr).multiMsgCapable.toNat numVectorExponent.toNat
  address : messageAddress regs' capAddr = 0xfee00000#64 ||| apicId.setWidth 64 <<< 12
  data : regs' (capWord capAddr (dataWord (msiHeader regs capAddr))) =
    deliveryMode.value <<< 8 ||| vector.setWidth 32 |||
      if triggerMode = .kLevel then 0xc000#32 else 0#32
  headerBits : ∀ i, i < 32 → i ≠ 16 → ¬ (20 ≤ i ∧ i < 23) →
    (msiHeader regs' capAddr).data.getLsbD i = (msiHeader regs capAddr).data.getLsbD i
  outside : ∀ r, (∀ k, k < msiWords (msiHeader regs capAddr) → r ≠ capWord capAddr k) →
    regs' r = regs r

/-- The code only computes the low half of the address. -/
theorem append_messageAddress (upper : BitVec 32) (apicId : BitVec 8) :
    upper ++ (0xfee00000#32 ||| apicId.setWidth 32 <<< 12) =
        (0xfee00000#64 ||| apicId.setWidth 64 <<< 12) ↔ upper = 0#32 := by
  have hlow : 0#32 ++ (0xfee00000#32 ||| apicId.setWidth 32 <<< 12) =
      (0xfee00000#64 ||| apicId.setWidth 64 <<< 12) := by
    revert apicId
    decide +kernel
  constructor
  · intro h
    rw [← hlow] at h
    have hhigh := congrArg (fun x : BitVec (32 + 32) => x.extractLsb' 32 32) h
    simp only [BitVec.extractLsb'_append_eq_left] at hhigh
    exact hhigh
  · rintro rfl
    exact hlow

theorem sameElsewhere_writeMSICapability (capAddr : BitVec 8) (msiCap : MSICapability) :
    SameElsewhere dev space (writeMSICapability space dev capAddr msiCap) := by
  have hrefl : SameElsewhere dev space space := fun _ _ _ _ => rfl
  have hite : ∀ {c : Prop} [Decidable c] {a b : ConfigSpace}, SameElsewhere dev space a →
      SameElsewhere dev space b → SameElsewhere dev space (if c then a else b) := by
    intro c _ a b ha hb
    split
    · exact ha
    · exact hb
  have hhead := sameElsewhere_writeConfReg (sameElsewhere_writeConfReg hrefl capAddr
    msiCap.header.data) (capAddr + 4#8) msiCap.msgAddr
  have hdata := sameElsewhere_writeConfReg
    (hite (c := msiCap.header.addr64Capable = true)
      (sameElsewhere_writeConfReg hhead (capAddr + 8#8) msiCap.msgUpperAddr) hhead)
    (if msiCap.header.addr64Capable = true then capAddr + 12#8 else capAddr + 8#8) msiCap.msgData
  exact hite (sameElsewhere_writeConfReg (sameElsewhere_writeConfReg hdata _ _) _ _) hdata

/-- A device whose capability list has one MSI capability gets it written. -/
theorem configureMSI_eq {caps : List (BitVec 8)} {capAddr : BitVec 8}
    (h : HasOneMsi (registers space dev) caps capAddr) {fuel : ℕ} (hfuel : caps.length < fuel)
    (msgAddr msgData numVectorExponent : BitVec 32) :
    configureMSI space fuel dev msgAddr msgData numVectorExponent =
      some (configureMSIRegister space dev capAddr msgAddr msgData numVectorExponent) := by
  have hpointer : (readConfReg space dev 0x34#8 &&& 0xff#32).setWidth 8 =
      (registers space dev (registerOf 0x34#8)).extractLsb' 0 8 := by
    rw [readConfReg_eq]
    apply BitVec.eq_of_getLsbD_eq
    intro i hi
    interval_cases i <;> simp
  obtain ⟨msix, hfind⟩ := findCapabilities_spec h.list fuel 0#8 0#8 hfuel
  have hne : capAddr ≠ 0#8 := by
    have hmem : capAddr ∈ caps.filter (isMsi (registers space dev)) := by
      rw [h.one]
      exact List.mem_singleton_self capAddr
    exact h.list.ne_zero capAddr (List.mem_filter.mp hmem).1
  rw [h.one] at hfind
  unfold configureMSI
  simp only [hpointer, hfind, Option.bind_eq_bind, Option.bind_some, List.getLast?_singleton,
    Option.getD_some]
  rw [if_pos hne]

/-- The registers after the header, the address and the data are written. -/
def writtenRegisters (regs : BitVec 6 → BitVec 32) (capAddr : BitVec 8)
    (msgAddr msgData numVectorExponent : BitVec 32) : BitVec 6 → BitVec 32 :=
  Function.update (Function.update (Function.update regs (capWord capAddr 0)
    (configuredHeader (msiHeader regs capAddr) numVectorExponent).data) (capWord capAddr 1) msgAddr)
    (capWord capAddr (dataWord (msiHeader regs capAddr))) msgData

section WrittenRegisters

variable (regs : BitVec 6 → BitVec 32) (capAddr : BitVec 8)
  (msgAddr msgData numVectorExponent : BitVec 32)

theorem dataWord_range (h : CapabilityHeader) :
    2 ≤ dataWord h ∧ dataWord h < msiWords h ∧ dataWord h ≤ 3 := by
  unfold dataWord msiWords
  split
  · omega
  · omega

theorem writtenRegisters_header :
    msiHeader (writtenRegisters regs capAddr msgAddr msgData numVectorExponent) capAddr =
      configuredHeader (msiHeader regs capAddr) numVectorExponent := by
  obtain ⟨hlow, -, hhigh⟩ := dataWord_range (msiHeader regs capAddr)
  have h0 : writtenRegisters regs capAddr msgAddr msgData numVectorExponent (capWord capAddr 0) =
      (configuredHeader (msiHeader regs capAddr) numVectorExponent).data := by
    unfold writtenRegisters
    rw [update_capWord (by omega) (by omega) (by omega),
      update_capWord (by omega) (by omega) (by omega), Function.update_self]
  unfold msiHeader at h0 ⊢
  rw [← registerOf_eq_capWord] at h0
  rw [h0]

theorem writtenRegisters_address :
    writtenRegisters regs capAddr msgAddr msgData numVectorExponent (capWord capAddr 1) =
      msgAddr := by
  obtain ⟨hlow, -, hhigh⟩ := dataWord_range (msiHeader regs capAddr)
  unfold writtenRegisters
  rw [update_capWord (by omega) (by omega) (by omega), Function.update_self]

theorem writtenRegisters_of_ne {r : BitVec 6} (h0 : r ≠ capWord capAddr 0)
    (h1 : r ≠ capWord capAddr 1)
    (hd : r ≠ capWord capAddr (dataWord (msiHeader regs capAddr))) :
    writtenRegisters regs capAddr msgAddr msgData numVectorExponent r = regs r := by
  unfold writtenRegisters
  rw [Function.update_of_ne hd, Function.update_of_ne h1, Function.update_of_ne h0]

/-- The upper half of the address is the word that was there, or absent. -/
theorem messageAddress_writtenRegisters_iff (apicId : BitVec 8) :
    messageAddress (writtenRegisters regs capAddr (0xfee00000#32 ||| apicId.setWidth 32 <<< 12)
        msgData numVectorExponent) capAddr = (0xfee00000#64 ||| apicId.setWidth 64 <<< 12) ↔
      ((msiHeader regs capAddr).addr64Capable = true → regs (capWord capAddr 2) = 0#32) := by
  have h64 := (configuredHeader_layout numVectorExponent (msiHeader regs capAddr)).1
  unfold messageAddress
  rw [writtenRegisters_address, append_messageAddress, writtenRegisters_header, h64]
  split
  · next hcapable =>
    have hthree : dataWord (msiHeader regs capAddr) = 3 := if_pos hcapable
    have hupper : writtenRegisters regs capAddr (0xfee00000#32 ||| apicId.setWidth 32 <<< 12)
        msgData numVectorExponent (capWord capAddr 2) = regs (capWord capAddr 2) := by
      apply writtenRegisters_of_ne
      · exact capWord_ne capAddr (by omega) (by omega) (by omega)
      · exact capWord_ne capAddr (by omega) (by omega) (by omega)
      · rw [hthree]
        exact capWord_ne capAddr (by omega) (by omega) (by omega)
    rw [hupper]
    exact ⟨fun h _ => h, fun h => h hcapable⟩
  · next hcapable => exact ⟨fun _ h => absurd h hcapable, fun _ => rfl⟩

/-- Only the upper half of the address can be wrong after the words are written. -/
theorem msiConfigured_writtenRegisters_iff (apicId : BitVec 8) (triggerMode : MSITriggerMode)
    (deliveryMode : MSIDeliveryMode) (vector : BitVec 8) (hnum : numVectorExponent.toNat ≤ 5) :
    MsiConfigured regs (writtenRegisters regs capAddr
        (0xfee00000#32 ||| apicId.setWidth 32 <<< 12)
        (deliveryMode.value <<< 8 ||| vector.setWidth 32 |||
          if triggerMode = .kLevel then 0xc000#32 else 0#32) numVectorExponent)
        capAddr apicId triggerMode deliveryMode vector numVectorExponent ↔
      ((msiHeader regs capAddr).addr64Capable = true → regs (capWord capAddr 2) = 0#32) := by
  generalize hdata : (deliveryMode.value <<< 8 ||| vector.setWidth 32 |||
    if triggerMode = .kLevel then 0xc000#32 else 0#32) = msgData
  have haddress := messageAddress_writtenRegisters_iff regs capAddr msgData numVectorExponent apicId
  generalize hw : writtenRegisters regs capAddr (0xfee00000#32 ||| apicId.setWidth 32 <<< 12)
    msgData numVectorExponent = regs' at haddress
  have hheader : msiHeader regs' capAddr =
      configuredHeader (msiHeader regs capAddr) numVectorExponent := by
    rw [← hw, writtenRegisters_header]
  -- the header and the data are right in any case, so what is left is the address
  refine ⟨fun h => haddress.mp h.address, fun h => ?_⟩
  obtain ⟨value, hvalue, hconf⟩ := exists_configuredHeader (msiHeader regs capAddr)
    numVectorExponent hnum
  rw [hconf] at hheader
  constructor
  · rw [hheader, msiEnable_setMsiEnable]
  · rw [hheader, multiMsgEnable_configured, hvalue]
  · exact haddress.mpr h
  · rw [hdata, ← hw]
    exact Function.update_self _ _ _
  · intro i hi hne hrange
    rw [hheader, getLsbD_setMsiEnable _ _ hi, if_neg hne, getLsbD_setMultiMsgEnable _ _ hi,
      if_neg hrange]
  · intro r hr
    obtain ⟨hge, hlt, -⟩ := dataWord_range (msiHeader regs capAddr)
    rw [← hw]
    exact writtenRegisters_of_ne _ _ _ _ _ (hr 0 (by omega)) (hr 1 (by omega)) (hr _ hlt)

end WrittenRegisters

/-- **When MSI is configured as requested.** For a device whose capability list has one MSI
capability, the call succeeds and writes no other function; the capability is then set up as
requested if and only if it has no upper address word, or that word was zero before: the word
is written back as it was read. -/
theorem configureMSIFixedDestination_configured_iff (space : ConfigSpace) (dev : Device)
    (caps : List (BitVec 8)) (capAddr : BitVec 8)
    (hcaps : HasOneMsi (registers space dev) caps capAddr) (apicId : BitVec 8)
    (triggerMode : MSITriggerMode) (deliveryMode : MSIDeliveryMode) (vector : BitVec 8)
    (numVectorExponent : BitVec 32) (hnum : numVectorExponent.toNat ≤ 5) :
    ∃ space', (∀ fuel, caps.length < fuel →
        configureMSIFixedDestination space fuel dev apicId triggerMode deliveryMode vector
          numVectorExponent = some (.kSuccess, space')) ∧
      SameElsewhere dev space space' ∧
      (MsiConfigured (registers space dev) (registers space' dev) capAddr apicId triggerMode
          deliveryMode vector numVectorExponent ↔
        ((msiHeader (registers space dev) capAddr).addr64Capable = true →
          registers space dev (capWord capAddr 2) = 0#32)) := by
  -- the source sets the trigger bits in a branch of its own
  have hdata : (if triggerMode = .kLevel then
      deliveryMode.value <<< 8 ||| vector.setWidth 32 ||| 0xc000#32
      else deliveryMode.value <<< 8 ||| vector.setWidth 32) =
      deliveryMode.value <<< 8 ||| vector.setWidth 32 |||
        if triggerMode = .kLevel then 0xc000#32 else 0#32 := by
    split
    · rfl
    · rw [BitVec.or_zero]
  refine ⟨(configureMSIRegister space dev capAddr (0xfee00000#32 ||| apicId.setWidth 32 <<< 12)
    (deliveryMode.value <<< 8 ||| vector.setWidth 32 |||
      if triggerMode = .kLevel then 0xc000#32 else 0#32) numVectorExponent).2,
    fun fuel hfuel => ?_, sameElsewhere_writeMSICapability _ _, ?_⟩
  · rw [← hdata]
    exact configureMSI_eq hcaps hfuel _ _ _
  · rw [registers_configureMSIRegister]
    exact msiConfigured_writtenRegisters_iff _ _ _ _ _ _ _ hnum

/-- An MSI capability at 0x50, 64 bits wide, whose upper address word is not zero. -/
def upperAddressSet : ConfigSpace := fun _ _ _ register =>
  if register = 13#6 then 0x50#32
  else if register = 20#6 then 0x00880005#32
  else if register = 22#6 then 1#32
  else 0#32

/-- A host controller, for the examples. -/
def someDevice : Device := ⟨0#8, 3#8, 0#8, 0#8, ⟨0x0c#8, 0x03#8, 0x30#8⟩⟩

theorem upperAddressSet_hasOneMsi :
    HasOneMsi (registers upperAddressSet someDevice) [0x50#8] 0x50#8 := by
  constructor
  · exact .cons (by decide) (by decide) .nil
  · decide
  · decide

theorem configureMSIFixedDestination_upperAddressSet :
    ∃ space', (∀ fuel, [0x50#8].length < fuel →
        configureMSIFixedDestination upperAddressSet fuel someDevice 0#8 .kLevel .kFixed 0x40#8
          0#32 = some (.kSuccess, space')) ∧
      SameElsewhere someDevice upperAddressSet space' ∧
      (MsiConfigured (registers upperAddressSet someDevice) (registers space' someDevice) 0x50#8
          0#8 .kLevel .kFixed 0x40#8 0#32 ↔
        ((msiHeader (registers upperAddressSet someDevice) 0x50#8).addr64Capable = true →
          registers upperAddressSet someDevice (capWord 0x50#8 2) = 0#32)) :=
  configureMSIFixedDestination_configured_iff upperAddressSet someDevice [0x50#8] 0x50#8
    upperAddressSet_hasOneMsi 0#8 .kLevel .kFixed 0x40#8 0#32 (by decide)

/-- The messages go to the address 0x1_fee00000. -/
theorem upperAddressSet_misdirected :
    HasOneMsi (registers upperAddressSet someDevice) [0x50#8] 0x50#8 ∧
      ∃ space', configureMSIFixedDestination upperAddressSet 2 someDevice 0#8 .kLevel .kFixed
          0x40#8 0#32 = some (.kSuccess, space') ∧
        messageAddress (registers space' someDevice) 0x50#8 = 0x1fee00000#64 ∧
        ¬ MsiConfigured (registers upperAddressSet someDevice) (registers space' someDevice)
          0x50#8 0#8 .kLevel .kFixed 0x40#8 0#32 := by
  have hrun : (configureMSIFixedDestination upperAddressSet 2 someDevice 0#8 .kLevel .kFixed
      0x40#8 0#32).map (fun r => (r.1, messageAddress (registers r.2 someDevice) 0x50#8)) =
      some (.kSuccess, 0x1fee00000#64) := by
    decide +kernel
  obtain ⟨⟨err, space'⟩, hcall, hresult⟩ := Option.map_eq_some_iff.mp hrun
  obtain ⟨rfl, haddress⟩ := Prod.mk.injEq .. ▸ hresult
  refine ⟨upperAddressSet_hasOneMsi, space', hcall, haddress, fun h => ?_⟩
  have hright := h.address
  rw [haddress] at hright
  exact absurd hright (by decide)

end TommyOS.Pci
