import Mathlib.Data.BitVec
import Mathlib.Data.Fin.VecNotation
import Mathlib.Data.Nat.Notation

/-!
# Transfer request blocks

The unions of `trb.hpp` are four 32-bit words with fields at fixed bits. A pointer field is
the upper 60 bits of the first two words.
-/

namespace TommyOS.Usb

/-- One proof for all numerals of words. -/
instance (priority := 2000) instNeZeroFour : NeZero 4 := ⟨by decide⟩

/-- The four words of a TRB. -/
abbrev TRB := Fin 4 → BitVec 32

def sizeofTRB : ℕ := 16

namespace TRB

def cycleBit (trb : TRB) : Bool := (trb 3).getLsbD 0

def trbType (trb : TRB) : BitVec 6 := (trb 3).extractLsb' 10 6

/-- The first two words as a number of 64 bits. -/
def parameter (trb : TRB) : BitVec 64 := trb 1 ++ trb 0

/-- The pointer in the upper 60 bits of the parameter. -/
def pointer (trb : TRB) : BitVec 64 := trb.parameter >>> 4 <<< 4

/-- The TRB with its cycle bit set to a value, and all other bits as they are. -/
def stamped (trb : TRB) (cycle : Bool) : TRB := fun i =>
  if i = 3 then trb 3 &&& 0xfffffffe#32 ||| (BitVec.ofBool cycle).setWidth 32 else trb i

/-- All bits but the cycle bit. -/
def payload (trb : TRB) : TRB := trb.stamped false

end TRB

/-! ## `LinkTRB` -/

namespace LinkTRB

def type : BitVec 6 := 6#6

def toggleCycle (trb : TRB) : Bool := (trb 3).getLsbD 1

/-- A link to a segment, with the toggle flag set. -/
def toSegment (ringSegmentPointer : BitVec 64) : TRB :=
  ![(ringSegmentPointer >>> 4 <<< 4).setWidth 32, (ringSegmentPointer >>> 32).setWidth 32, 0#32,
    type.setWidth 32 <<< 10 ||| 1#32 <<< 1]

end LinkTRB

/-! ## Bits -/

namespace TRB

variable (trb : TRB) (cycle cycle' : Bool)

theorem stamped_of_ne {i : Fin 4} (hi : i ≠ 3) : trb.stamped cycle i = trb i := if_neg hi

theorem getLsbD_stamped {j : ℕ} (hj : j < 32) :
    (trb.stamped cycle 3).getLsbD j = if j = 0 then cycle else (trb 3).getLsbD j := by
  unfold stamped
  rw [if_pos rfl, BitVec.getLsbD_or, BitVec.getLsbD_and]
  have hmask : (0xfffffffe#32).getLsbD j = !decide (j = 0) := by
    have : ∀ j : Fin 32, (0xfffffffe#32).getLsbD j = !decide (j.val = 0) := by decide
    exact this ⟨j, hj⟩
  rw [hmask, BitVec.getLsbD_setWidth, BitVec.getLsbD_ofBool]
  by_cases hzero : j = 0
  · subst hzero
    simp
  · simp [hzero]

@[simp] theorem cycleBit_stamped : (trb.stamped cycle).cycleBit = cycle := by
  unfold cycleBit
  rw [getLsbD_stamped _ _ (by decide), if_pos rfl]

@[simp] theorem trbType_stamped : (trb.stamped cycle).trbType = trb.trbType := by
  unfold trbType
  apply BitVec.eq_of_getLsbD_eq
  intro j hj
  rw [BitVec.getLsbD_extractLsb', BitVec.getLsbD_extractLsb', getLsbD_stamped _ _ (by omega),
    if_neg (by omega)]

@[simp] theorem stamped_stamped : (trb.stamped cycle).stamped cycle' = trb.stamped cycle' := by
  funext i
  by_cases hi : i = 3
  · subst hi
    apply BitVec.eq_of_getLsbD_eq
    intro j hj
    rw [getLsbD_stamped _ _ hj, getLsbD_stamped _ _ hj, getLsbD_stamped _ _ hj]
    split
    · rfl
    · rfl
  · rw [stamped_of_ne _ _ hi, stamped_of_ne _ _ hi, stamped_of_ne _ _ hi]

@[simp] theorem payload_stamped : (trb.stamped cycle).payload = trb.payload :=
  stamped_stamped trb cycle false

end TRB

namespace LinkTRB

variable (p : BitVec 64) (cycle : Bool)

theorem toSegment_three : toSegment p 3 = type.setWidth 32 <<< 10 ||| 1#32 <<< 1 := rfl

@[simp] theorem trbType_toSegment : (toSegment p).trbType = type := by
  unfold TRB.trbType
  rw [toSegment_three]
  decide

theorem toggleCycle_toSegment : toggleCycle ((toSegment p).stamped cycle) = true := by
  unfold toggleCycle
  rw [TRB.getLsbD_stamped _ _ (by decide), if_neg (by decide), toSegment_three]
  decide

/-- An aligned pointer has no low bits. -/
theorem shift_aligned {p : BitVec 64} (halign : p.extractLsb' 0 4 = 0#4) : p >>> 4 <<< 4 = p := by
  apply BitVec.eq_of_getLsbD_eq
  intro j hj
  rw [BitVec.getLsbD_shiftLeft, BitVec.getLsbD_ushiftRight]
  by_cases hlow : j < 4
  · have hbit := congrArg (fun x : BitVec 4 => x.getLsbD j) halign
    simp only [BitVec.getLsbD_extractLsb', hlow, decide_true, Bool.true_and, Nat.zero_add,
      BitVec.getLsbD_zero] at hbit
    simp [hlow, hbit]
  · simp [hlow, hj, show 4 + (j - 4) = j by omega]

/-- The pointer of a link is the segment it was made for, when that is aligned. -/
theorem pointer_toSegment {p : BitVec 64} (halign : p.extractLsb' 0 4 = 0#4) :
    ((toSegment p).stamped cycle).pointer = p := by
  have hparam : ((toSegment p).stamped cycle).parameter = p := by
    unfold TRB.parameter
    rw [TRB.stamped_of_ne _ _ (by decide), TRB.stamped_of_ne _ _ (by decide)]
    show (p >>> 32).setWidth 32 ++ (p >>> 4 <<< 4).setWidth 32 = p
    rw [shift_aligned halign]
    apply BitVec.eq_of_getLsbD_eq
    intro j hj
    rw [BitVec.getLsbD_append]
    by_cases hlow : j < 32
    · simp [hlow]
    · simp [hlow, show j - 32 < 32 by omega, show 32 + (j - 32) = j by omega]
  unfold TRB.pointer
  rw [hparam, shift_aligned halign]

end LinkTRB

end TommyOS.Usb
