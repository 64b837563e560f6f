import TommyOS.Lib.Alignment

/-!
# Bump allocation

An allocator that hands out one region from its start on, as natural numbers: where a request is
placed, and whether some requests in a row fit in front of the end of the region. A request that
does not fit may be rounded past the end, but not past the next coarse boundary.
-/

namespace BumpAllocator

open Alignment

/-- A block of some size, at a multiple of `alignment` and not across a multiple of `boundary`
where the size allows it. Zero is no constraint. -/
structure Request where
  size : ℕ
  alignment : ℕ
  boundary : ℕ
deriving DecidableEq

namespace Request

variable (r : Request) {a limit : ℕ}

def align (a : ℕ) : ℕ := if 0 < r.alignment then ceilTo a r.alignment else a

/-- Where the block begins. -/
def place (a : ℕ) : ℕ :=
  if 0 < r.boundary ∧ ceilTo (r.align a) r.boundary < r.align a + r.size then
    ceilTo (r.align a) r.boundary
  else
    r.align a

theorem le_align : a ≤ r.align a := by
  unfold align
  split
  · next hpos => exact le_ceilTo hpos
  · exact Nat.le_refl a

theorem le_place : a ≤ r.place a := by
  have hle := r.le_align (a := a)
  unfold place
  split
  · next hcross => exact hle.trans (le_ceilTo hcross.1)
  · exact hle

/-- Both roundings stop at a common multiple. -/
theorem align_le (ha : a ≤ limit) (halignment : 0 < r.alignment → r.alignment ∣ limit) :
    r.align a ≤ limit := by
  unfold align
  split
  · next hpos => exact ceilTo_le hpos (halignment hpos) ha
  · exact ha

theorem place_le (ha : a ≤ limit) (halignment : 0 < r.alignment → r.alignment ∣ limit)
    (hboundary : 0 < r.boundary → r.boundary ∣ limit) : r.place a ≤ limit := by
  have halign := r.align_le ha halignment
  unfold place
  split
  · next hcross => exact ceilTo_le hcross.1 (hboundary hcross.1) halign
  · exact halign

end Request

/-- The requests fit in front of the limit, one behind the other. -/
def Fits (limit : ℕ) : ℕ → List Request → Prop
  | _, [] => True
  | a, r :: rs => r.place a + r.size ≤ limit ∧ Fits limit (r.place a + r.size) rs

/-- Where the rest of the region begins behind the requests. -/
def after : ℕ → List Request → ℕ
  | a, [] => a
  | a, r :: rs => after (r.place a + r.size) rs

instance Fits.decidable (limit : ℕ) : ∀ a rs, Decidable (Fits limit a rs)
  | _, [] => .isTrue trivial
  | a, r :: rs =>
    have := Fits.decidable limit (r.place a + r.size) rs
    inferInstanceAs (Decidable (r.place a + r.size ≤ limit ∧ Fits limit _ rs))

variable {limit a : ℕ} {r : Request} {rs rs' : List Request}

theorem fits_cons :
    Fits limit a (r :: rs) ↔
      r.place a + r.size ≤ limit ∧ Fits limit (r.place a + r.size) rs := Iff.rfl

theorem fits_append :
    Fits limit a (rs ++ rs') ↔ Fits limit a rs ∧ Fits limit (after a rs) rs' := by
  induction rs generalizing a with
  | nil => exact ⟨fun h => ⟨trivial, h⟩, fun h => h.2⟩
  | cons r rs ih => rw [List.cons_append, fits_cons, fits_cons, ih, and_assoc, after]

theorem after_append : after a (rs ++ rs') = after (after a rs) rs' := by
  induction rs generalizing a with
  | nil => rfl
  | cons r rs ih => exact ih

end BumpAllocator
