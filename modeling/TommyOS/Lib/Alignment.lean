import Mathlib.Algebra.Order.Group.Nat
import Mathlib.Order.Bounds.Basic

/-!
# Alignment

Rounding up to a multiple: `ceilTo n a` is the least multiple of `a` from `n` on. For a power of
two it is what machine code computes with a mask, and two roundings in a row keep the first
alignment whatever the order of the two powers.
-/

namespace Alignment

/-- The least multiple of `a` from `n` on. -/
def ceilTo (n a : ℕ) : ℕ := (n + a - 1) / a * a

variable {n m a b : ℕ}

theorem dvd_ceilTo (n a : ℕ) : a ∣ ceilTo n a := Nat.dvd_mul_left a _

theorem le_ceilTo (ha : 0 < a) : n ≤ ceilTo n a := by
  have hdiv := Nat.div_add_mod (n + a - 1) a
  have hmod := Nat.mod_lt (n + a - 1) ha
  rw [Nat.mul_comm] at hdiv
  unfold ceilTo
  omega

theorem ceilTo_lt_add (ha : 0 < a) : ceilTo n a < n + a := by
  have hle := Nat.div_mul_le_self (n + a - 1) a
  unfold ceilTo
  omega

theorem ceilTo_le (ha : 0 < a) (hdvd : a ∣ m) (hle : n ≤ m) : ceilTo n a ≤ m := by
  obtain ⟨k, rfl⟩ := hdvd
  obtain ⟨q, hq⟩ := dvd_ceilTo n a
  have hlt := ceilTo_lt_add (n := n) ha
  rw [hq] at hlt ⊢
  -- otherwise the rounded value would be a whole `a` too large
  have : q < k + 1 := by
    apply Nat.lt_of_mul_lt_mul_left (a := a)
    rw [Nat.mul_add, Nat.mul_one]
    omega
  exact Nat.mul_le_mul_left a (by omega)

theorem ceilTo_eq_self (ha : 0 < a) (hdvd : a ∣ n) : ceilTo n a = n :=
  le_antisymm (ceilTo_le ha hdvd (le_refl n)) (le_ceilTo ha)

/-! ## Powers of two -/

/-- Of two powers of two one divides the other. -/
theorem two_pow_dvd_or (i j : ℕ) : 2 ^ i ∣ 2 ^ j ∨ 2 ^ j ∣ 2 ^ i := by
  rcases Nat.le_total i j with h | h
  · exact Or.inl (Nat.pow_dvd_pow 2 h)
  · exact Or.inr (Nat.pow_dvd_pow 2 h)

/-- Rounding a multiple of one of two comparable alignments to the other keeps it a multiple. -/
theorem dvd_ceilTo_of_dvd (hb : 0 < b) (hab : a ∣ b ∨ b ∣ a) (hn : a ∣ n) :
    a ∣ ceilTo n b := by
  rcases hab with h | h
  · exact Nat.dvd_trans h (dvd_ceilTo n b)
  · rw [ceilTo_eq_self hb (Nat.dvd_trans h hn)]
    exact hn

/-! ## Masks -/

theorem and_not_mask_eq_shift {w : ℕ} (v : BitVec w) (k : ℕ) :
    v &&& ~~~(BitVec.ofNat w (2 ^ k - 1)) = (v >>> k) <<< k := by
  apply BitVec.eq_of_getLsbD_eq
  intro i hi
  rw [BitVec.getLsbD_and, BitVec.getLsbD_not, BitVec.getLsbD_shiftLeft,
    BitVec.getLsbD_ushiftRight, BitVec.getLsbD_ofNat, Nat.testBit_two_pow_sub_one]
  by_cases hik : i < k
  · simp [hi, hik]
  · simp [hi, hik, Nat.add_sub_cancel' (Nat.le_of_not_lt hik)]

/-- Clearing the low bits rounds down. -/
theorem toNat_and_not_mask {w : ℕ} (v : BitVec w) (k : ℕ) :
    (v &&& ~~~(BitVec.ofNat w (2 ^ k - 1))).toNat = v.toNat / 2 ^ k * 2 ^ k := by
  rw [and_not_mask_eq_shift, BitVec.toNat_shiftLeft, BitVec.toNat_ushiftRight,
    Nat.shiftLeft_eq, Nat.shiftRight_eq_div_pow]
  apply Nat.mod_eq_of_lt
  exact lt_of_le_of_lt (Nat.div_mul_le_self _ _) v.isLt

end Alignment
