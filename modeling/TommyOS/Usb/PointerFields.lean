import TommyOS.Lib.BitField
import TommyOS.Usb.EventRing
import TommyOS.Usb.Trb

/-!
# Pointer fields

The registers, TRBs and contexts that hold an address keep its upper bits in a bit-field.
`Pointer` and `SetPointer` are the same for all of them up to where the field lies, how wide
it is and by how much the address is shifted. The contents of a union are its bits, from the
lowest bit of its first word on.
-/

namespace TommyOS.Usb

/-- The bit-field of a union of `size` bits, and the shift that its functions use. -/
structure PointerField where
  size : ℕ
  offset : ℕ
  width : ℕ
  shift : ℕ
  inside : offset + width ≤ size

namespace PointerField

/-- `<<` on a bit-field of type `uint64_t`: one narrower than `int` is promoted to `int`, one
as wide to `unsigned int`, and the result is converted to 64 bits. -/
def shiftLeft {w : ℕ} (v : BitVec w) (shift : ℕ) : BitVec 64 :=
  if w < 32 then (v.setWidth 32 <<< shift).signExtend 64
  else if w = 32 then (v.setWidth 32 <<< shift).setWidth 64
  else v.setWidth 64 <<< shift

variable (f : PointerField)

/-- `Pointer`. -/
def pointer (raw : BitVec f.size) : BitVec 64 :=
  shiftLeft (BitField.get raw f.offset f.width) f.shift

/-- `SetPointer`. -/
def setPointer (raw : BitVec f.size) (value : BitVec 64) : BitVec f.size :=
  BitField.set raw f.offset ((value >>> f.shift).setWidth f.width)

/-- Bit `i` belongs to the field. -/
def Covers (i : ℕ) : Prop := f.offset ≤ i ∧ i < f.offset + f.width

end PointerField

/-! ## The unions -/

namespace CRCR_Bitmap

def commandRingPointer : PointerField := ⟨64, 6, 58, 6, by decide⟩

end CRCR_Bitmap

namespace DCBAAP_Bitmap

def deviceContextBaseAddressArrayPointer : PointerField := ⟨64, 6, 26, 6, by decide⟩

end DCBAAP_Bitmap

namespace ERSTBA_Bitmap

def eventRingSegmentTableBaseAddress : PointerField := ⟨64, 6, 58, 6, by decide⟩

end ERSTBA_Bitmap

namespace ERDP_Bitmap

def eventRingDequeuePointer : PointerField := ⟨64, 4, 60, 4, by decide⟩

end ERDP_Bitmap

namespace LinkTRB

def ringSegmentPointer : PointerField := ⟨128, 4, 60, 4, by decide⟩

end LinkTRB

namespace AddressDeviceCommandTRB

def inputContextPointer : PointerField := ⟨128, 4, 60, 4, by decide⟩

end AddressDeviceCommandTRB

namespace ConfigureEndpointCommandTRB

def inputContextPointer : PointerField := ⟨128, 4, 60, 4, by decide⟩

end ConfigureEndpointCommandTRB

namespace CommandCompletionEventTRB

def commandTrbPointer : PointerField := ⟨128, 4, 60, 4, by decide⟩

end CommandCompletionEventTRB

/-- Behind two words and the cycle state with its three reserved bits. -/
def EndpointContext.trDequeuePointerField : PointerField := ⟨256, 68, 60, 4, by decide⟩

/-- The unions with a pointer field. -/
inductive PointerUnion where
  | CRCR_Bitmap
  | DCBAAP_Bitmap
  | ERSTBA_Bitmap
  | ERDP_Bitmap
  | LinkTRB
  | AddressDeviceCommandTRB
  | ConfigureEndpointCommandTRB
  | CommandCompletionEventTRB
  | EndpointContext
deriving DecidableEq, Repr

/-- The pointer field of a union. -/
def PointerUnion.field : PointerUnion → PointerField
  | CRCR_Bitmap => CRCR_Bitmap.commandRingPointer
  | DCBAAP_Bitmap => DCBAAP_Bitmap.deviceContextBaseAddressArrayPointer
  | ERSTBA_Bitmap => ERSTBA_Bitmap.eventRingSegmentTableBaseAddress
  | ERDP_Bitmap => ERDP_Bitmap.eventRingDequeuePointer
  | LinkTRB => LinkTRB.ringSegmentPointer
  | AddressDeviceCommandTRB => AddressDeviceCommandTRB.inputContextPointer
  | ConfigureEndpointCommandTRB => ConfigureEndpointCommandTRB.inputContextPointer
  | CommandCompletionEventTRB => CommandCompletionEventTRB.commandTrbPointer
  | EndpointContext => EndpointContext.trDequeuePointerField

/-! ## Reading back -/

namespace PointerField

variable {f : PointerField} {p : BitVec 64}

/-- `SetPointer` leaves the bits outside the field. -/
theorem getLsbD_setPointer (raw : BitVec f.size) (p : BitVec 64) {i : ℕ} (hi : i < f.size)
    (hout : ¬ f.Covers i) : (f.setPointer raw p).getLsbD i = raw.getLsbD i :=
  BitField.getLsbD_set_of_outside raw f.offset _ hi hout

/-- What `Pointer` makes of the bits that `SetPointer` keeps. -/
theorem pointer_setPointer (raw : BitVec f.size) (p : BitVec 64) :
    f.pointer (f.setPointer raw p) = shiftLeft ((p >>> f.shift).setWidth f.width) f.shift := by
  unfold pointer setPointer
  rw [BitField.get_set raw _ f.inside]

/-- The low bits of an aligned address are zero. -/
theorem getLsbD_aligned {s i : ℕ} (hp : p.toNat % 2 ^ s = 0) (hi : i < s) :
    p.getLsbD i = false := by
  rw [BitVec.getLsbD, ← Nat.div_add_mod p.toNat (2 ^ s), hp,
    Nat.testBit_two_pow_mul_add _ (Nat.two_pow_pos s), if_pos hi, Nat.zero_testBit]

/-- A field that has room for all bits but the shifted ones holds every aligned address. -/
theorem shiftLeft_wide {w s : ℕ} (hw : 32 < w) (hws : w + s = 64)
    (hp : p.toNat % 2 ^ s = 0) : shiftLeft ((p >>> s).setWidth w) s = p := by
  unfold shiftLeft
  rw [if_neg (by omega), if_neg (by omega)]
  apply BitVec.eq_of_getLsbD_eq
  intro i hi
  rw [BitVec.getLsbD_shiftLeft, BitVec.getLsbD_setWidth, BitVec.getLsbD_setWidth,
    BitVec.getLsbD_ushiftRight]
  by_cases hs : i < s
  · rw [getLsbD_aligned hp hs]
    simp [hs]
  · have hsum : s + (i - s) = i := by omega
    simp [hi, hs, hsum, show i - s < 64 by omega, show i - s < w by omega]

/-- A field that has room for the bits up to bit 31 only is read back as a signed number of
32 bits. -/
theorem shiftLeft_narrow {w s : ℕ} (hs : 0 < s) (hws : w + s = 32) (hp : p.toNat % 2 ^ s = 0) :
    shiftLeft ((p >>> s).setWidth w) s = (p.setWidth 32).signExtend 64 := by
  unfold shiftLeft
  rw [if_pos (by omega)]
  congr 1
  apply BitVec.eq_of_getLsbD_eq
  intro i hi
  rw [BitVec.getLsbD_shiftLeft, BitVec.getLsbD_setWidth, BitVec.getLsbD_setWidth,
    BitVec.getLsbD_ushiftRight, BitVec.getLsbD_setWidth]
  by_cases hlow : i < s
  · rw [getLsbD_aligned hp hlow]
    simp [hlow]
  · have hsum : s + (i - s) = i := by omega
    simp [hi, hlow, hsum, show i - s < 32 by omega, show i - s < w by omega]

/-- A number of 64 bits is the extension of its low 32 bits when its upper 33 bits agree. -/
theorem signExtend_setWidth_iff (p : BitVec 64) :
    (p.setWidth 32).signExtend 64 = p ↔ p.toNat < 2 ^ 31 ∨ 2 ^ 64 - 2 ^ 31 ≤ p.toNat := by
  have hlt := p.isLt
  rw [← BitVec.toNat_inj, BitVec.toNat_signExtend, BitVec.toNat_setWidth,
    BitVec.msb_eq_decide, BitVec.toNat_setWidth]
  by_cases hmsb : 2 ^ 31 ≤ p.toNat % 2 ^ 32
  · simp only [hmsb, decide_true, if_true]
    omega
  · simp only [hmsb, decide_false, Bool.false_eq_true, if_false]
    omega

end PointerField

/-! ## The other views of the same fields -/

/-- The bits of a TRB. -/
def TRB.raw (trb : TRB) : BitVec 128 := (trb 3 ++ trb 2 : BitVec 64) ++ trb.parameter

/-- `Pointer` of `LinkTRB` on its words. -/
theorem LinkTRB.pointer_raw (trb : TRB) :
    LinkTRB.ringSegmentPointer.pointer trb.raw = trb.pointer := by
  apply BitVec.eq_of_getLsbD_eq
  intro i hi
  show ((BitVec.setWidth 64 (TRB.raw trb |>.extractLsb' 4 60)) <<< 4).getLsbD i = _
  unfold TRB.raw TRB.pointer
  generalize trb.parameter = parameter
  generalize (trb 3 ++ trb 2 : BitVec 64) = upper
  by_cases hlow : i < 4
  · simp [hlow]
  · have hsum : 4 + (i - 4) = i := by omega
    have happend : (upper ++ parameter).getLsbD i = parameter.getLsbD i := by
      rw [BitVec.getLsbD_append, if_pos hi]
    rw [BitVec.getLsbD_shiftLeft, BitVec.getLsbD_setWidth, BitVec.getLsbD_extractLsb', hsum,
      happend, BitVec.getLsbD_shiftLeft, BitVec.getLsbD_ushiftRight, hsum]
    simp [show i - 4 < 60 by omega, show i - 4 < 64 by omega]

/-- `Pointer` of `ERDP_Bitmap` as the event ring uses it. -/
theorem ERDP_Bitmap.pointer_eq (erdp : BitVec 64) :
    ERDP_Bitmap.eventRingDequeuePointer.pointer erdp = ERDP.pointer erdp := by
  apply BitVec.eq_of_getLsbD_eq
  intro i hi
  show ((BitVec.setWidth 64 (erdp.extractLsb' 4 60)) <<< 4).getLsbD i = _
  unfold ERDP.pointer
  by_cases hlow : i < 4
  · simp [hlow]
  · have hsum : 4 + (i - 4) = i := by omega
    simp [hi, hlow, hsum, show i - 4 < 60 by omega]

/-- `SetPointer` of `ERDP_Bitmap` as the event ring uses it. -/
theorem ERDP_Bitmap.setPointer_eq (erdp value : BitVec 64) :
    ERDP_Bitmap.eventRingDequeuePointer.setPointer erdp value = ERDP.setPointer erdp value := by
  have hset := BitField.set_upper (n := 4) erdp ((value >>> 4).setWidth 60)
  rw [BitVec.setWidth_ushiftRight_eq_extractLsb] at hset
  exact hset

/-- `SetPointer` of `ERSTBA_Bitmap` as the event ring uses it. -/
theorem ERSTBA_Bitmap.setPointer_eq (erstba value : BitVec 64) :
    ERSTBA_Bitmap.eventRingSegmentTableBaseAddress.setPointer erstba value =
      ERSTBA.setPointer erstba value := by
  have hset := BitField.set_upper (n := 6) erstba ((value >>> 6).setWidth 58)
  rw [BitVec.setWidth_ushiftRight_eq_extractLsb] at hset
  exact hset

/-! ## All pointer fields -/

/-- Every field but that of `DCBAAP_Bitmap` has room for the unshifted bits. -/
theorem PointerUnion.field_width {u : PointerUnion} (hu : u ≠ DCBAAP_Bitmap) :
    32 < u.field.width ∧ u.field.width + u.field.shift = 64 := by
  cases u with
  | DCBAAP_Bitmap => exact absurd rfl hu
  | CRCR_Bitmap | ERSTBA_Bitmap | ERDP_Bitmap | LinkTRB | AddressDeviceCommandTRB
  | ConfigureEndpointCommandTRB | CommandCompletionEventTRB | EndpointContext => decide

/-- No field is shifted by more than the alignment of the address. -/
theorem PointerUnion.field_shift_dvd (u : PointerUnion) : 2 ^ u.field.shift ∣ 64 := by
  cases u with
  | CRCR_Bitmap | DCBAAP_Bitmap | ERSTBA_Bitmap | ERDP_Bitmap | LinkTRB
  | AddressDeviceCommandTRB | ConfigureEndpointCommandTRB | CommandCompletionEventTRB
  | EndpointContext => decide

/-- `Pointer` returns the aligned address that `SetPointer` was given, and the bits outside
the field are kept, exactly when the union is not `DCBAAP_Bitmap` or the address is one of 32
bits, extended with its sign. -/
theorem PointerUnion.setPointer_roundTrip_iff (u : PointerUnion) (raw : BitVec u.field.size)
    (p : BitVec 64) (hp : p.toNat % 64 = 0) :
    (u.field.pointer (u.field.setPointer raw p) = p ∧
      ∀ i < u.field.size, ¬ u.field.Covers i →
        (u.field.setPointer raw p).getLsbD i = raw.getLsbD i) ↔
      (u = DCBAAP_Bitmap → p.toNat < 2 ^ 31 ∨ 2 ^ 64 - 2 ^ 31 ≤ p.toNat) := by
  have houtside : ∀ i < u.field.size, ¬ u.field.Covers i →
      (u.field.setPointer raw p).getLsbD i = raw.getLsbD i :=
    fun i hi hout => PointerField.getLsbD_setPointer raw p hi hout
  have haligned : p.toNat % 2 ^ u.field.shift = 0 :=
    Nat.mod_eq_zero_of_dvd (u.field_shift_dvd.trans (Nat.dvd_of_mod_eq_zero hp))
  rw [and_iff_left houtside, PointerField.pointer_setPointer]
  by_cases hu : u = DCBAAP_Bitmap
  · subst hu
    have hnarrow := PointerField.shiftLeft_narrow (w := 26) (s := 6) (p := p) (by decide)
      (by decide) haligned
    rw [← PointerField.signExtend_setWidth_iff, ← hnarrow]
    exact ⟨fun h _ => h, fun h => h rfl⟩
  · have hwide := PointerUnion.field_width hu
    exact iff_of_true (PointerField.shiftLeft_wide hwide.1 hwide.2 haligned)
      fun h => absurd h hu

/-- A command ring above 4 GiB, in a register with other flags and an old address. -/
theorem PointerUnion.setPointer_roundTrip_iff_commandRing :
    CRCR_Bitmap.field.pointer
        (CRCR_Bitmap.field.setPointer 0xffff8000deadbe2b#64 0x1234567fc0#64) = 0x1234567fc0#64 ∧
      ∀ i < CRCR_Bitmap.field.size, ¬ CRCR_Bitmap.field.Covers i →
        (CRCR_Bitmap.field.setPointer 0xffff8000deadbe2b#64 0x1234567fc0#64).getLsbD i =
          (0xffff8000deadbe2b#64).getLsbD i :=
  (setPointer_roundTrip_iff CRCR_Bitmap 0xffff8000deadbe2b#64 0x1234567fc0#64 (by decide)).mpr
    fun h => nomatch h

/-- The controller is not given the address of an array of device contexts at 4 GiB. -/
theorem PointerUnion.dcbaap_truncates :
    DCBAAP_Bitmap.field.pointer (DCBAAP_Bitmap.field.setPointer 0#64 0x100000000#64) ≠
      0x100000000#64 := by
  decide

end TommyOS.Usb
