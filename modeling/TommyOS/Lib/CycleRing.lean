import Mathlib.Algebra.Order.Group.Nat
import Mathlib.Data.Nat.Notation
import Mathlib.Logic.Function.Basic
import Mathlib.Tactic.TypeStar

/-!
# Rings whose cells carry a cycle bit

One party fills the cells of a ring round after round, another reads them in the same order.
There is no shared counter: each cell carries a bit that the writer inverts from one lap to
the next, and the reader takes a cell when its bit is the one of the reader's own lap. Here
both parties are at positions of an unbounded sequence: position `v` is in cell `v % n` and in
lap `v / n`. Nothing here names a particular program.
-/

namespace CycleRing

variable {C : Type*} {n : ℕ}

/-- The cycle bit of the lap a position is in: set in the first lap, inverted in each next. -/
def lapBit (n v : ℕ) : Bool := v / n % 2 == 0

theorem lapBit_of_lt {v : ℕ} (h : v < n) : lapBit n v = true := by
  unfold lapBit
  rw [Nat.div_eq_of_lt h]
  rfl

theorem lapBit_not (a b : ℕ) (h : b / n = a / n + 1) : lapBit n b = !lapBit n a := by
  unfold lapBit
  rw [h]
  rcases Nat.mod_two_eq_zero_or_one (a / n) with h0 | h1
  · rw [Nat.add_mod, h0]
    rfl
  · rw [Nat.add_mod, h1]
    rfl

/-- A lap later the bit is the other one. -/
theorem lapBit_add_self (hn : 0 < n) (v : ℕ) : lapBit n (v + n) = !lapBit n v :=
  lapBit_not v (v + n) (Nat.add_div_right v hn)

/-- The next position is in the same lap, or at the start of the next one. -/
theorem succ_cases (hn : 0 < n) (v : ℕ) :
    (v % n + 1 < n ∧ (v + 1) % n = v % n + 1 ∧ (v + 1) / n = v / n ∧
        lapBit n (v + 1) = lapBit n v) ∨
      (v % n + 1 = n ∧ (v + 1) % n = 0 ∧ (v + 1) / n = v / n + 1 ∧
        lapBit n (v + 1) = !lapBit n v) := by
  have hdiv := Nat.div_add_mod v n
  have hmod := Nat.mod_lt v hn
  by_cases hlast : v % n + 1 = n
  · right
    have hv : v + 1 = n * (v / n + 1) := by
      rw [Nat.mul_add, Nat.mul_one]
      omega
    have hq : (v + 1) / n = v / n + 1 := by rw [hv, Nat.mul_div_cancel_left _ hn]
    exact ⟨hlast, by rw [hv, Nat.mul_mod_right], hq, lapBit_not _ _ hq⟩
  · left
    have hlt : v % n + 1 < n := by omega
    have hv : v + 1 = v % n + 1 + n * (v / n) := by omega
    have hq : (v + 1) / n = v / n := by
      rw [hv, Nat.add_mul_div_left _ _ hn, Nat.div_eq_of_lt hlt, Nat.zero_add]
    refine ⟨hlt, by rw [hv, Nat.add_mul_mod_self_left, Nat.mod_eq_of_lt hlt], hq, ?_⟩
    unfold lapBit
    rw [hq]

/-- Less than a lap apart, positions are in different cells. -/
theorem mod_ne_of_lt {v w : ℕ} (hlt : v < w) (hw : w < v + n) : v % n ≠ w % n := by
  intro h
  have hzero := Nat.sub_mod_eq_zero_of_mod_eq h.symm
  rw [Nat.mod_eq_of_lt (by omega)] at hzero
  omega

/-! ## The window of the writer -/

/-- The cells when positions up to `W` are filled: the last `n - 1` of them hold what was
written, and the cell that is next, and those not yet reached, show a bit that is not the
one of their lap. -/
structure Window (n : ℕ) (stamp : C → Bool) (content cells : ℕ → C) (W : ℕ) : Prop where
  recent : ∀ v, v < W → W < v + n → cells (v % n) = content v
  next : stamp (cells (W % n)) = !lapBit n W
  unreached : ∀ i, W < i → i < n → stamp (cells i) = false

namespace Window

variable {stamp : C → Bool} {content content' cells : ℕ → C} {W R : ℕ}

/-- Before anything is written all bits are clear. -/
theorem zero (hn : 0 < n) (hclear : ∀ i, i < n → stamp (cells i) = false) :
    Window n stamp content cells 0 := by
  refine ⟨fun v hv => absurd hv (Nat.not_lt_zero v), ?_, fun i _ hi => hclear i hi⟩
  rw [Nat.zero_mod, hclear 0 hn, lapBit_of_lt hn]
  rfl

theorem congr (h : Window n stamp content cells W) (heq : ∀ v, v < W → content v = content' v) :
    Window n stamp content' cells W := by
  refine ⟨fun v hv hW => ?_, h.next, h.unreached⟩
  rw [h.recent v hv hW, heq v hv]

/-- The next cell may change as long as its bit stays: no reader takes it. -/
theorem touch (h : Window n stamp content cells W) {c : C}
    (hc : stamp c = stamp (cells (W % n))) :
    Window n stamp content (Function.update cells (W % n) c) W := by
  refine ⟨fun v hv hW => ?_, ?_, fun i hi hin => ?_⟩
  · rw [Function.update_of_ne (mod_ne_of_lt hv hW)]
    exact h.recent v hv hW
  · rw [Function.update_self, hc]
    exact h.next
  · have hne : i ≠ W % n := by
      rw [Nat.mod_eq_of_lt (Nat.lt_trans hi hin)]
      exact Nat.ne_of_gt hi
    rw [Function.update_of_ne hne]
    exact h.unreached i hi hin

/-- The next cell is filled. -/
theorem advance (h : Window n stamp content cells W) (hn : 1 < n)
    (hstamp : ∀ v, v ≤ W → stamp (content v) = lapBit n v) :
    Window n stamp content (Function.update cells (W % n) (content W)) (W + 1) := by
  have hpos : 0 < n := Nat.zero_lt_of_lt hn
  refine ⟨fun v hv hW => ?_, ?_, fun i hi hin => ?_⟩
  -- the cell filled last is the new one, and the others are not it
  · by_cases hlast : v = W
    · rw [hlast, Function.update_self]
    · have hlt : v < W := by omega
      rw [Function.update_of_ne (mod_ne_of_lt hlt (by omega))]
      exact h.recent v hlt (by omega)
  · have hne : (W + 1) % n ≠ W % n := fun heq =>
      mod_ne_of_lt (n := n) (Nat.lt_succ_self W) (by omega) heq.symm
    rw [Function.update_of_ne hne]
    by_cases hfirst : W + 1 < n
    · -- in the first lap the cell was never written
      rw [Nat.mod_eq_of_lt hfirst, h.unreached (W + 1) (Nat.lt_succ_self W) hfirst,
        lapBit_of_lt hfirst]
      rfl
    · -- later it holds what was written a lap before
      obtain ⟨v, hv⟩ := Nat.exists_eq_add_of_le' (Nat.le_of_not_lt hfirst)
      rw [hv, Nat.add_mod_right, h.recent v (by omega) (by omega), hstamp v (by omega),
        lapBit_add_self hpos, Bool.not_not]
  · have hne : i ≠ W % n := by
      rw [Nat.mod_eq_of_lt (by omega)]
      omega
    rw [Function.update_of_ne hne]
    exact h.unreached i (by omega) hin

/-- A reader that is not a lap behind takes a cell exactly when there is something to read. -/
theorem stamp_eq_iff (h : Window n stamp content cells W)
    (hstamp : ∀ v, v < W → stamp (content v) = lapBit n v) (hle : R ≤ W) (hlt : W < R + n) :
    stamp (cells (R % n)) = lapBit n R ↔ R < W := by
  rcases Nat.lt_or_eq_of_le hle with hR | rfl
  · rw [h.recent R hR hlt, hstamp R hR]
    exact ⟨fun _ => hR, fun _ => rfl⟩
  · rw [h.next]
    constructor
    · intro heq
      exact absurd heq (by cases lapBit n R <;> decide)
    · intro hlt
      exact absurd hlt (Nat.lt_irrefl R)

end Window

end CycleRing
