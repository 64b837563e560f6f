import Mathlib.Data.BitVec
import Mathlib.Data.Nat.Notation

/-!
# Bit-fields

A bit-field of `w` bits at some offset of a storage of `n` bits: reading it, storing to it,
and which bits a store leaves alone.
-/

namespace BitField

variable {n w : ℕ}

/-- The field at `offset`. -/
def get (raw : BitVec n) (offset w : ℕ) : BitVec w := raw.extractLsb' offset w

/-- The storage with `v` in the field at `offset`. -/
def set (raw : BitVec n) (offset : ℕ) (v : BitVec w) : BitVec n :=
  raw &&& ~~~((BitVec.allOnes w).setWidth n <<< offset) ||| v.setWidth n <<< offset

/-- The bits after a store, those of the field and those around it. -/
theorem getLsbD_set (raw : BitVec n) (offset : ℕ) (v : BitVec w) {i : ℕ} (hi : i < n) :
    (set raw offset v).getLsbD i =
      if offset ≤ i ∧ i < offset + w then v.getLsbD (i - offset) else raw.getLsbD i := by
  unfold set
  rw [BitVec.getLsbD_or, BitVec.getLsbD_and, BitVec.getLsbD_not, BitVec.getLsbD_shiftLeft,
    BitVec.getLsbD_shiftLeft, BitVec.getLsbD_setWidth, BitVec.getLsbD_setWidth,
    BitVec.getLsbD_allOnes]
  have hin : i - offset < n := by omega
  by_cases hlow : offset ≤ i
  · by_cases hhigh : i < offset + w
    · have hw : i - offset < w := by omega
      simp [hi, hin, hlow, hhigh, hw, Nat.not_lt.mpr hlow]
    · -- above the field neither the mask nor the value has a bit
      have hw : ¬ i - offset < w := by omega
      have hv : v.getLsbD (i - offset) = false := BitVec.getLsbD_of_ge v _ (by omega)
      simp [hi, hhigh, hw, hv]
  · simp [hi, hlow, Nat.lt_of_not_le hlow]

/-- A store to a field leaves the bits around it. -/
theorem getLsbD_set_of_outside (raw : BitVec n) (offset : ℕ) (v : BitVec w) {i : ℕ} (hi : i < n)
    (hout : ¬ (offset ≤ i ∧ i < offset + w)) :
    (set raw offset v).getLsbD i = raw.getLsbD i := by
  rw [getLsbD_set raw offset v hi, if_neg hout]

/-- The bits after a store to a field of one bit. -/
theorem getLsbD_set_bit (raw : BitVec n) (offset : ℕ) (v : BitVec 1) {i : ℕ} (hi : i < n) :
    (set raw offset v).getLsbD i = if i = offset then v.getLsbD 0 else raw.getLsbD i := by
  rw [getLsbD_set raw offset v hi]
  by_cases hio : i = offset
  · rw [if_pos (by omega), if_pos hio, hio, Nat.sub_self]
  · rw [if_neg (by omega), if_neg hio]

/-- A store to a field leaves the fields around it. -/
theorem get_set_of_disjoint (raw : BitVec n) {offset other : ℕ} (v : BitVec w) {u : ℕ}
    (hinside : other + u ≤ n) (hdisjoint : other + u ≤ offset ∨ offset + w ≤ other) :
    get (set raw offset v) other u = get raw other u := by
  unfold get
  apply BitVec.eq_of_getLsbD_eq
  intro i hi
  rw [BitVec.getLsbD_extractLsb', BitVec.getLsbD_extractLsb',
    getLsbD_set_of_outside raw offset v (by omega) (by omega)]

/-- What was stored to a field is read back. -/
theorem get_set (raw : BitVec n) {offset : ℕ} (v : BitVec w) (hinside : offset + w ≤ n) :
    get (set raw offset v) offset w = v := by
  unfold get
  apply BitVec.eq_of_getLsbD_eq
  intro i hi
  rw [BitVec.getLsbD_extractLsb', getLsbD_set raw offset v (by omega), if_pos (by omega),
    Nat.add_sub_cancel_left]
  simp [hi]

/-- Two fields side by side. -/
theorem get_append_get (raw : BitVec n) (offset u : ℕ) :
    get raw (offset + u) w ++ get raw offset u = get raw offset (w + u) := by
  unfold get
  apply BitVec.eq_of_getLsbD_eq
  intro i hi
  rw [BitVec.getLsbD_append, BitVec.getLsbD_extractLsb', BitVec.getLsbD_extractLsb',
    BitVec.getLsbD_extractLsb', decide_eq_true hi, Bool.true_and]
  by_cases hlow : i < u
  · rw [if_pos hlow, decide_eq_true hlow, Bool.true_and]
  · rw [if_neg hlow, decide_eq_true (show i - u < w by omega), Bool.true_and,
      show offset + u + (i - u) = offset + i by omega]

/-- A field of the lower part. -/
theorem get_append_low (high : BitVec w) (low : BitVec n) {offset u : ℕ}
    (hinside : offset + u ≤ n) : get (high ++ low) offset u = get low offset u := by
  unfold get
  apply BitVec.eq_of_getLsbD_eq
  intro i hi
  rw [BitVec.getLsbD_extractLsb', BitVec.getLsbD_extractLsb', BitVec.getLsbD_append,
    if_pos (by omega)]

/-- A field of the upper part. -/
theorem get_append_high (high : BitVec w) (low : BitVec n) {offset u : ℕ} (hoffset : n ≤ offset) :
    get (high ++ low) offset u = get high (offset - n) u := by
  unfold get
  apply BitVec.eq_of_getLsbD_eq
  intro i hi
  rw [BitVec.getLsbD_extractLsb', BitVec.getLsbD_extractLsb', BitVec.getLsbD_append,
    if_neg (by omega), show offset + i - n = offset - n + i by omega]

/-- The lowest bits. -/
theorem get_low (raw : BitVec n) : get raw 0 w = raw.setWidth w := by
  unfold get
  apply BitVec.eq_of_getLsbD_eq
  intro i hi
  rw [BitVec.getLsbD_extractLsb', BitVec.getLsbD_setWidth, Nat.zero_add]

/-- A field that the code computes with a shift and a mask. -/
theorem setWidth_shift_mask (raw : BitVec n) (offset : ℕ) {mask : BitVec n}
    (hmask : mask = (BitVec.allOnes w).setWidth n) :
    (raw >>> offset &&& mask).setWidth w = get raw offset w := by
  subst hmask
  unfold get
  apply BitVec.eq_of_getLsbD_eq
  intro i hi
  rw [BitVec.getLsbD_setWidth, BitVec.getLsbD_and, BitVec.getLsbD_ushiftRight,
    BitVec.getLsbD_setWidth, BitVec.getLsbD_extractLsb', BitVec.getLsbD_allOnes]
  by_cases hin : i < n
  · simp [hi, hin]
  · have hout : raw.getLsbD (offset + i) = false := BitVec.getLsbD_of_ge raw _ (by omega)
    simp [hin, hout]

/-- A store to the uppermost field. -/
theorem set_upper (raw : BitVec (w + n)) (v : BitVec w) :
    set raw n v = v ++ raw.setWidth n := by
  apply BitVec.eq_of_getLsbD_eq
  intro i hi
  rw [getLsbD_set raw n v hi, BitVec.getLsbD_append]
  by_cases hlow : i < n
  · simp [hlow, Nat.not_le.mpr hlow]
  · simp [hlow, Nat.le_of_not_lt hlow, show i < n + w by omega]

end BitField
