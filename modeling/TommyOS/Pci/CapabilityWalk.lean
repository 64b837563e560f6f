import TommyOS.Lib.PointerChain
import TommyOS.Pci.MsiTheorems

/-!
# The walk of the capability list

`ConfigureMSI` follows the pointers of the list until one is 0, and nothing else stops it. Pointers
to the same double word are different pointers with the same successor.
-/

namespace TommyOS.Pci

open PointerChain Relation

variable {space : ConfigSpace} {dev : Device}

/-- The capability pointer of a device. -/
def firstCapability (space : ConfigSpace) (dev : Device) : BitVec 8 :=
  (readConfReg space dev 0x34#8 &&& 0xff#32).setWidth 8

/-- The pointer in the capability at an address. -/
def nextCapability (space : ConfigSpace) (dev : Device) (capPointer : BitVec 8) : BitVec 8 :=
  (readCapabilityHeader space dev capPointer).nextPtr

/-- A capability pointer leads to the next one, unless it is 0. -/
def LeadsToCapability (space : ConfigSpace) (dev : Device) : BitVec 8 → BitVec 8 → Prop :=
  Leads 0#8 (nextCapability space dev)

/-- The loop visits the chain of pointers. -/
theorem findCapabilities_isSome (fuel : ℕ) (capPointer msiCapAddr msixCapAddr : BitVec 8) :
    (findCapabilities space dev fuel capPointer msiCapAddr msixCapAddr).isSome =
      (visits 0#8 (nextCapability space dev) fuel capPointer).isSome := by
  induction fuel generalizing capPointer msiCapAddr msixCapAddr with
  | zero => rfl
  | succ fuel ih =>
    by_cases hnull : capPointer = 0#8
    · rw [hnull, visits_null]
      rfl
    · rw [visits_of_ne hnull, Option.isSome_map, findCapabilities, if_neg hnull]
      simp only
      split
      · exact ih _ _ _
      · split
        · exact ih _ _ _
        · exact ih _ _ _

theorem configureMSI_isSome (fuel : ℕ) (msgAddr msgData numVectorExponent : BitVec 32) :
    (configureMSI space fuel dev msgAddr msgData numVectorExponent).isSome =
      (visits 0#8 (nextCapability space dev) fuel (firstCapability space dev)).isSome := by
  rw [← findCapabilities_isSome fuel _ 0#8 0#8]
  unfold configureMSI
  show (Option.bind (findCapabilities space dev fuel (firstCapability space dev) 0#8 0#8)
    _).isSome = _
  cases findCapabilities space dev fuel (firstCapability space dev) 0#8 0#8 with
  | none => rfl
  | some found =>
    rw [Option.bind_some]
    dsimp only
    split_ifs <;> rfl

/-- `ConfigureMSI` ends exactly when no pointer that the list has leads back to itself. -/
theorem configureMSI_ends_iff (space : ConfigSpace) (dev : Device)
    (msgAddr msgData numVectorExponent : BitVec 32) :
    (∃ fuel r, configureMSI space fuel dev msgAddr msgData numVectorExponent = some r) ↔
      ∀ p, ReflTransGen (LeadsToCapability space dev) (firstCapability space dev) p →
        ¬ TransGen (LeadsToCapability space dev) p p := by
  have : Finite (BitVec 8) := .of_injective BitVec.toFin fun _ _ => BitVec.eq_of_toFin_eq
  unfold LeadsToCapability
  rw [← exists_visits_iff]
  simp only [← Option.isSome_iff_exists, configureMSI_isSome]

/-- A device that is gone reads as all ones: its first pointer is 0xff, and so is the next. -/
theorem configureMSI_allOnes_hangs :
    ¬ ∃ fuel r, configureMSI (fun _ _ _ _ => 0xffffffff#32) fuel someDevice 0xfee00000#32 0x40#32
      0#32 = some r := by
  rintro ⟨fuel, r, h⟩
  have hsome : (configureMSI (fun _ _ _ _ => 0xffffffff#32) fuel someDevice 0xfee00000#32 0x40#32
      0#32).isSome = _ := configureMSI_isSome fuel 0xfee00000#32 0x40#32 0#32
  rw [h, Option.isSome_some] at hsome
  obtain ⟨l, hl⟩ := Option.isSome_iff_exists.mp hsome.symm
  exact not_cycle_of_visits hl .refl (.single ⟨by decide, by decide⟩)

end TommyOS.Pci
