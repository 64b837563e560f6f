import TommyOS.Pci.MsiTheorems

/-!
# The words of an MSI capability

`ReadMSICapability` and `WriteMSICapability` compute the places of the fields on their own.
Here both are compared with one layout, the list of the words that a capability has: writing
lays the words out one after the other, reading takes them from there.
-/

namespace TommyOS.Pci

/-! ## Words in a row -/

/-- Registers with some words from number `k` of a capability on. -/
def layWords (regs : BitVec 6 → BitVec 32) (capAddr : BitVec 8) :
    ℕ → List (BitVec 32) → BitVec 6 → BitVec 32
  | _, [] => regs
  | k, word :: words =>
    layWords (Function.update regs (capWord capAddr k) word) capAddr (k + 1) words

section LayWords

variable {regs : BitVec 6 → BitVec 32} {capAddr : BitVec 8}

/-- The other registers keep their words. -/
theorem layWords_of_ne {k : ℕ} {words : List (BitVec 32)} {r : BitVec 6}
    (hr : ∀ i, k ≤ i → i < k + words.length → r ≠ capWord capAddr i) :
    layWords regs capAddr k words r = regs r := by
  induction words generalizing regs k with
  | nil => rfl
  | cons word words ih =>
    rw [List.length_cons] at hr
    unfold layWords
    rw [ih fun i hle hlt => hr i (by omega) (by omega)]
    exact Function.update_of_ne (hr k (le_refl k) (by omega)) _ _

/-- Each word is where it was laid. -/
theorem layWords_capWord {k : ℕ} {words : List (BitVec 32)} (hlen : k + words.length ≤ 64)
    {i : ℕ} (hi : i < words.length) :
    layWords regs capAddr k words (capWord capAddr (k + i)) = words[i] := by
  induction words generalizing regs k i with
  | nil => exact absurd hi (Nat.not_lt_zero i)
  | cons word words ih =>
    rw [List.length_cons] at hlen hi
    unfold layWords
    cases i with
    | zero =>
      rw [layWords_of_ne]
      · exact Function.update_self _ _ _
      · intro i hle hlt
        exact add_ofNat_ne _ (by omega) (by omega) (by omega)
    | succ i =>
      have hnext : k + (i + 1) = k + 1 + i := by omega
      rw [hnext, List.getElem_cons_succ]
      exact ih (by omega) (by omega)

/-- Laying out what is there changes nothing. -/
theorem layWords_own {k : ℕ} {words : List (BitVec 32)}
    (hown : ∀ i (hi : i < words.length), regs (capWord capAddr (k + i)) = words[i]) :
    layWords regs capAddr k words = regs := by
  induction words generalizing k with
  | nil => rfl
  | cons word words ih =>
    unfold layWords
    have hfirst : regs (capWord capAddr k) = word := hown 0 (Nat.zero_lt_succ _)
    rw [update_own hfirst]
    apply ih
    intro i hi
    have hnext : k + (i + 1) = k + 1 + i := by omega
    have hword := hown (i + 1) (Nat.succ_lt_succ hi)
    rw [hnext] at hword
    exact hword

end LayWords

/-! ## The layout -/

namespace MSICapability

/-- The words that the layout of a capability has, in their order. -/
def words (m : MSICapability) : List (BitVec 32) :=
  [m.header.data, m.msgAddr] ++ (if m.header.addr64Capable then [m.msgUpperAddr] else []) ++
    [m.msgData] ++ if m.header.perVectorMaskCapable then [m.maskBits, m.pendingBits] else []

/-- The capability with 0 in the fields that its layout does not have. -/
def inLayout (m : MSICapability) : MSICapability :=
  { m with
    msgUpperAddr := if m.header.addr64Capable then m.msgUpperAddr else 0#32
    maskBits := if m.header.perVectorMaskCapable then m.maskBits else 0#32
    pendingBits := if m.header.perVectorMaskCapable then m.pendingBits else 0#32 }

theorem length_words (m : MSICapability) : m.words.length = msiWords m.header := by
  unfold words msiWords
  split
  · split
    · rfl
    · rfl
  · split
    · rfl
    · rfl

theorem length_words_le (m : MSICapability) : m.words.length ≤ 6 := by
  rw [length_words]
  unfold msiWords
  split
  · split
    · omega
    · omega
  · split
    · omega
    · omega

end MSICapability

/-- The layout of a capability lies in the 256 bytes of a configuration space. -/
def LayoutFits (capAddr : BitVec 8) (h : CapabilityHeader) : Prop :=
  capAddr.toNat + 4 * msiWords h ≤ 256

variable {space space' : ConfigSpace} {dev : Device}

/-- `WriteMSICapability` lays out the words. -/
theorem registers_writeMSICapability_words (capAddr : BitVec 8) (m : MSICapability) :
    registers (writeMSICapability space dev capAddr m) dev =
      layWords (registers space dev) capAddr 0 m.words := by
  rw [registers_writeMSICapability]
  unfold MSICapability.words dataWord
  by_cases h64 : m.header.addr64Capable
  · by_cases hmask : m.header.perVectorMaskCapable
    · simp [h64, hmask, layWords]
    · simp [h64, hmask, layWords]
  · by_cases hmask : m.header.perVectorMaskCapable
    · simp [h64, hmask, layWords]
    · simp [h64, hmask, layWords]

/-- `ReadMSICapability` takes the words from where they are laid out. -/
theorem readMSICapability_of_words {capAddr : BitVec 8} {m : MSICapability}
    (hwords : ∀ i (hi : i < m.words.length), registers space dev (capWord capAddr i) = m.words[i]) :
    readMSICapability space dev capAddr = m.inLayout := by
  have h0 : registers space dev (registerOf capAddr) = m.header.data := by
    rw [registerOf_eq_capWord]
    exact hwords 0 (by unfold MSICapability.words; simp)
  have hlength := m.length_words
  rw [readMSICapability_eq]
  simp only [h0]
  unfold MSICapability.inLayout
  unfold MSICapability.words at hwords hlength
  unfold dataWord
  -- the data word and the two mask words come after the upper address word, if there is one
  by_cases h64 : m.header.addr64Capable
  · by_cases hmask : m.header.perVectorMaskCapable
    · simp only [h64, hmask, if_true] at hwords ⊢
      rw [hwords 1 (by simp), hwords 2 (by simp), hwords 3 (by simp), hwords 4 (by simp),
        hwords 5 (by simp)]
      rfl
    · simp only [h64, hmask, if_true, if_false, Bool.false_eq_true] at hwords ⊢
      rw [hwords 1 (by simp), hwords 2 (by simp), hwords 3 (by simp)]
      rfl
  · by_cases hmask : m.header.perVectorMaskCapable
    · simp only [h64, hmask, if_true, if_false, Bool.false_eq_true] at hwords ⊢
      rw [hwords 1 (by simp), hwords 2 (by simp), hwords 3 (by simp), hwords 4 (by simp)]
      rfl
    · simp only [h64, hmask, if_false, Bool.false_eq_true] at hwords ⊢
      rw [hwords 1 (by simp), hwords 2 (by simp)]
      rfl

/-- The words of the capability that `ReadMSICapability` returns are those it read. -/
theorem words_readMSICapability (capAddr : BitVec 8) :
    (readMSICapability space dev capAddr).words =
      (List.range (msiWords (readMSICapability space dev capAddr).header)).map fun i =>
        registers space dev (capWord capAddr i) := by
  rw [readMSICapability_eq, registerOf_eq_capWord]
  unfold MSICapability.words msiWords dataWord
  dsimp only
  -- the header is read first, and decides which of the other words are read
  generalize CapabilityHeader.mk (registers space dev (capWord capAddr 0)) = h
  by_cases h64 : h.addr64Capable
  · by_cases hmask : h.perVectorMaskCapable
    · simp only [h64, hmask, if_true]
      rfl
    · simp only [h64, hmask, if_true, if_false, Bool.false_eq_true]
      rfl
  · by_cases hmask : h.perVectorMaskCapable
    · simp only [h64, hmask, if_true, if_false, Bool.false_eq_true]
      rfl
    · simp only [h64, hmask, if_false, Bool.false_eq_true]
      rfl

/-- A space is given by the registers of one function and those of the others. -/
theorem eq_of_registers (hregs : registers space' dev = registers space dev)
    (hsame : SameElsewhere dev space space') : space' = space := by
  funext bus device function
  by_cases heq : (bus, device, function) = selected dev
  · have hbus := congrArg Prod.fst heq
    have hdevice := congrArg (fun s => s.2.1) heq
    have hfunction := congrArg (fun s => s.2.2) heq
    simp only at hbus hdevice hfunction
    rw [hbus, hdevice, hfunction]
    exact hregs
  · exact hsame bus device function heq

/-- `WriteMSICapability` of what `ReadMSICapability` returns leaves the space unchanged. -/
theorem writeMSICapability_read (capAddr : BitVec 8) :
    writeMSICapability space dev capAddr (readMSICapability space dev capAddr) = space := by
  apply eq_of_registers _ (sameElsewhere_writeMSICapability capAddr _)
  rw [registers_writeMSICapability_words]
  apply layWords_own
  intro i hi
  simp only [words_readMSICapability, List.getElem_map, List.getElem_range, Nat.zero_add]

/-- `ReadMSICapability` after `WriteMSICapability` returns the fields of the layout. -/
theorem readMSICapability_write (capAddr : BitVec 8) (m : MSICapability) :
    readMSICapability (writeMSICapability space dev capAddr m) dev capAddr = m.inLayout := by
  have hlen := m.length_words_le
  apply readMSICapability_of_words
  intro i hi
  rw [registers_writeMSICapability_words]
  have hword := @layWords_capWord (registers space dev) capAddr 0 m.words (by omega) i hi
  rwa [Nat.zero_add] at hword

/-- The registers of a layout that fits are those of its addresses. -/
theorem capWord_toNat {capAddr : BitVec 8} {i n : ℕ} (haligned : capAddr.toNat % 4 = 0)
    (hfits : capAddr.toNat + 4 * n ≤ 256) (hi : i < n) :
    4 * (capWord capAddr i).toNat = capAddr.toNat + 4 * i := by
  unfold capWord registerOf
  rw [BitVec.toNat_add, BitVec.extractLsb'_toNat, BitVec.toNat_ofNat, Nat.shiftRight_eq_div_pow]
  omega

/-- Reading and writing an MSI capability are inverse to each other, for a capability at an
aligned address whose layout fits, and no register outside the layout is written. -/
theorem msiCapability_roundTrip (space : ConfigSpace) (dev : Device) (capAddr : BitVec 8)
    (haligned : capAddr.toNat % 4 = 0) :
    (LayoutFits capAddr (readMSICapability space dev capAddr).header →
      writeMSICapability space dev capAddr (readMSICapability space dev capAddr) = space) ∧
    ∀ m : MSICapability, LayoutFits capAddr m.header →
      readMSICapability (writeMSICapability space dev capAddr m) dev capAddr = m.inLayout ∧
      SameElsewhere dev space (writeMSICapability space dev capAddr m) ∧
      ∀ r : BitVec 6, (4 * r.toNat < capAddr.toNat ∨
          capAddr.toNat + 4 * msiWords m.header ≤ 4 * r.toNat) →
        registers (writeMSICapability space dev capAddr m) dev r = registers space dev r := by
  refine ⟨fun _ => writeMSICapability_read capAddr, fun m hfits => ?_⟩
  refine ⟨readMSICapability_write capAddr m, sameElsewhere_writeMSICapability capAddr m, ?_⟩
  intro r hr
  rw [registers_writeMSICapability_words]
  apply layWords_of_ne
  intro i _ hi heq
  rw [Nat.zero_add, m.length_words] at hi
  have hplace := capWord_toNat haligned hfits hi
  rw [heq] at hr
  omega

/-- A capability of four words at 0x50. -/
theorem msiCapability_roundTrip_upperAddressSet :
    LayoutFits 0x50#8 (readMSICapability upperAddressSet someDevice 0x50#8).header ∧
      writeMSICapability upperAddressSet someDevice 0x50#8
        (readMSICapability upperAddressSet someDevice 0x50#8) = upperAddressSet := by
  have hfits : LayoutFits 0x50#8 (readMSICapability upperAddressSet someDevice 0x50#8).header := by
    unfold LayoutFits
    decide
  exact ⟨hfits, (msiCapability_roundTrip upperAddressSet someDevice 0x50#8 (by decide)).1 hfits⟩

end TommyOS.Pci
