import Mathlib.Data.Fin.Basic

/-!
# Packed bitmaps

A map from `n * w` bit positions to booleans, stored as `n` words of `w` bits: position
`k` is bit `k % w` of word `k / w`. Programs update such a map one word at a time with
shifted masks; the lemmas here translate the masks into reads of single positions, so that
a client reasons about `test` only.
-/

/-- `n` words of `w` bits. -/
abbrev PackedBitmap (n w : ℕ) := Fin n → BitVec w

namespace PackedBitmap

variable {n w : ℕ}

/-- The bit at position `k`; positions past the last word read as clear. -/
def test (m : PackedBitmap n w) (k : ℕ) : Bool :=
  if h : k / w < n then (m ⟨k / w, h⟩).getLsbD (k % w) else false

theorem test_of_lt (m : PackedBitmap n w) {k : ℕ} (h : k / w < n) :
    m.test k = (m ⟨k / w, h⟩).getLsbD (k % w) := by
  rw [test, dif_pos h]

/-- A map with every word zero has every bit clear. -/
theorem test_zero (k : ℕ) : test (fun _ => 0 : PackedBitmap n w) k = false := by
  unfold test
  split
  · exact BitVec.getLsbD_zero
  · rfl

/-! ## Masks -/

/-- Testing a word against a one-bit mask reads that bit. -/
theorem and_one_shiftLeft_ne_zero (x : BitVec w) {i : ℕ} (hi : i < w) :
    (x &&& (1#w <<< i) ≠ 0) ↔ x.getLsbD i = true := by
  have hmask : 1#w <<< i = BitVec.twoPow w i := (BitVec.twoPow_eq w i).symm
  rw [hmask, BitVec.and_twoPow]
  by_cases hx : x.getLsbD i = true
  · rw [if_pos hx]
    have hne : BitVec.twoPow w i ≠ 0#w := by
      intro h0
      have hbit := congrArg (fun v : BitVec w => v.getLsbD i) h0
      simp [hi] at hbit
    exact iff_of_true hne hx
  · rw [if_neg hx]
    exact iff_of_false (fun h => h rfl) hx

/-- Setting a bit with a one-bit mask. -/
theorem getLsbD_or_one_shiftLeft (x : BitVec w) {i : ℕ} (hi : i < w) (j : ℕ) :
    (x ||| (1#w <<< i)).getLsbD j = if j = i then true else x.getLsbD j := by
  have hmask : 1#w <<< i = BitVec.twoPow w i := (BitVec.twoPow_eq w i).symm
  rw [hmask, BitVec.getLsbD_or, BitVec.getLsbD_twoPow]
  by_cases hj : j = i
  · rw [if_pos hj, hj]
    simp [hi]
  · rw [if_neg hj]
    simp [Ne.symm hj]

/-- Clearing a bit with the complement of a one-bit mask. -/
theorem getLsbD_and_not_one_shiftLeft (x : BitVec w) (i j : ℕ) :
    (x &&& ~~~(1#w <<< i)).getLsbD j = if j = i then false else x.getLsbD j := by
  have hmask : 1#w <<< i = BitVec.twoPow w i := (BitVec.twoPow_eq w i).symm
  rw [hmask, BitVec.getLsbD_and, BitVec.getLsbD_not, BitVec.getLsbD_twoPow]
  by_cases hj : j = i
  · rw [if_pos hj, hj]
    by_cases hi : i < w
    · simp [hi]
    · simp [hi]
  · rw [if_neg hj]
    by_cases hjw : j < w
    · simp [hjw, Ne.symm hj]
    · simp [hjw, BitVec.getLsbD_of_ge x j (Nat.le_of_not_lt hjw)]

/-! ## Updating one word -/

/-- If a new word differs from the old one in bit `k % w` only, the map changes at
position `k` only. -/
theorem test_update (m : PackedBitmap n w) {k : ℕ} (hk : k / w < n) (x : BitVec w) (b : Bool)
    (hx : ∀ j, x.getLsbD j = if j = k % w then b else (m ⟨k / w, hk⟩).getLsbD j) (i : ℕ) :
    test (Function.update m ⟨k / w, hk⟩ x) i = if i = k then b else m.test i := by
  by_cases hi : i / w < n
  · rw [test_of_lt _ hi, test_of_lt m hi]
    by_cases hline : i / w = k / w
    · have hfin : (⟨i / w, hi⟩ : Fin n) = ⟨k / w, hk⟩ := Fin.ext hline
      rw [hfin, Function.update_self, hx]
      -- same word: the positions agree exactly when the bits inside the word do
      by_cases hbit : i % w = k % w
      · have hik : i = k := by
          rw [← Nat.div_add_mod i w, ← Nat.div_add_mod k w, hline, hbit]
        rw [if_pos hbit, if_pos hik]
      · have hik : i ≠ k := fun h => hbit (by rw [h])
        rw [if_neg hbit, if_neg hik]
    · have hfin : (⟨i / w, hi⟩ : Fin n) ≠ ⟨k / w, hk⟩ := fun h => hline (Fin.mk.inj h)
      have hik : i ≠ k := fun h => hline (by rw [h])
      rw [Function.update_of_ne hfin, if_neg hik]
  · have hik : i ≠ k := fun h => hi (by rw [h]; exact hk)
    rw [if_neg hik, test, test, dif_neg hi, dif_neg hi]

/-- Two maps with the same bits have the same words. -/
theorem ext_test {m m' : PackedBitmap n w} (h : ∀ k, k < n * w → m.test k = m'.test k) :
    m = m' := by
  funext l
  apply BitVec.eq_of_getLsbD_eq
  intro i hi
  -- bit `i` of word `l` is position `l * w + i`
  have hw : 0 < w := by omega
  have hdiv : (l.val * w + i) / w = l.val := by
    rw [Nat.mul_comm, Nat.mul_add_div hw, Nat.div_eq_of_lt hi, Nat.add_zero]
  have hmod : (l.val * w + i) % w = i := by
    rw [Nat.mul_comm, Nat.mul_add_mod, Nat.mod_eq_of_lt hi]
  have hlt : l.val * w + i < n * w := by
    calc l.val * w + i < l.val * w + w := by omega
      _ = (l.val + 1) * w := by rw [Nat.succ_mul]
      _ ≤ n * w := Nat.mul_le_mul_right w l.isLt
  have hline : (l.val * w + i) / w < n := by rw [hdiv]; exact l.isLt
  have hk := h _ hlt
  rw [test_of_lt m hline, test_of_lt m' hline, hmod] at hk
  have hfin : (⟨(l.val * w + i) / w, hline⟩ : Fin n) = l := Fin.ext hdiv
  rwa [hfin] at hk

end PackedBitmap
