import TommyOS.Usb.MemoryTheorems

/-!
# What a failed allocation costs

`AllocMem` moves `alloc_ptr` for the alignment and for the boundary before it looks at the space
that is left, and returns null without moving it back. So a call that fails costs nothing exactly
when it had nothing to round.
-/

namespace TommyOS.Usb

open Alignment

/-- A multiple is what rounding up leaves alone. -/
theorem ceilTo_eq_self_iff {a n : ℕ} (ha : 0 < a) : ceilTo n a = n ↔ a ∣ n :=
  ⟨fun h => h ▸ dvd_ceilTo n a, ceilTo_eq_self ha⟩

namespace MemoryPool

variable {m m' : MemoryPool} {size : BitVec 64} {alignment boundary : BitVec 32}

/-- What a later part of the program asks for. -/
structure Call where
  size : BitVec 64
  alignment : BitVec 32
  boundary : BitVec 32

/-- What some calls return, one after the other. -/
def results (m : MemoryPool) : List Call → List (Option (BitVec 64))
  | [] => []
  | c :: calls =>
    let answer := m.allocMem c.size c.alignment c.boundary
    answer.1 :: results answer.2 calls

/-- `alloc_ptr` is aligned already, and the block would not cross a boundary that it does not
start at. -/
def StaysPut (m : MemoryPool) (size : BitVec 64) (alignment boundary : BitVec 32) : Prop :=
  (0 < alignment → alignment.toNat ∣ m.allocPtr.toNat) ∧
    (0 < boundary → boundary.toNat ∣ m.allocPtr.toNat ∨
      m.allocPtr.toNat + size.toNat ≤ ceilTo m.allocPtr.toNat boundary.toNat)

theorem aligned_eq_iff (ha : IsAlignment alignment) (hw : m.NoWrap size alignment boundary) :
    m.aligned alignment = m.allocPtr ↔ (0 < alignment → alignment.toNat ∣ m.allocPtr.toNat) := by
  constructor
  · intro heq hpos
    rw [← heq]
    exact (aligned_spec ha hw).2 hpos
  · intro hdvd
    unfold aligned
    by_cases hpos : 0 < alignment
    · obtain ⟨k, hk⟩ := ha.exists_pow hpos
      rw [if_pos hpos]
      apply BitVec.eq_of_toNat_eq
      rw [toNat_ceil hk (hw.ceil hpos), ceilTo_eq_self (toNat_pos_of_pos hpos) (hdvd hpos)]
    · rw [if_neg hpos]

theorem placed_eq_aligned_iff (hb : IsAlignment boundary)
    (hw : m.NoWrap size alignment boundary) :
    m.placed size alignment boundary = m.aligned alignment ↔
      (0 < boundary → boundary.toNat ∣ (m.aligned alignment).toNat ∨
        (m.aligned alignment).toNat + size.toNat ≤
          ceilTo (m.aligned alignment).toNat boundary.toNat) := by
  by_cases hpos : 0 < boundary
  · rw [imp_iff_right hpos, ← BitVec.toNat_inj, toNat_placed hb hw hpos,
      ← ceilTo_eq_self_iff (toNat_pos_of_pos hpos)]
    split
    · next hcross => exact (or_iff_left (Nat.not_le.mpr hcross)).symm
    · next hfits => exact iff_of_true rfl (.inr (Nat.not_lt.mp hfits))
  · exact iff_of_true (placed_of_no_boundary hpos) fun h => absurd h hpos

/-- The two roundings move `alloc_ptr` up, so neither can undo the other. -/
theorem placed_eq_allocPtr_iff (ha : IsAlignment alignment) (hb : IsAlignment boundary)
    (hw : m.NoWrap size alignment boundary) :
    m.placed size alignment boundary = m.allocPtr ↔ m.StaysPut size alignment boundary := by
  have hsplit : m.placed size alignment boundary = m.allocPtr ↔
      m.aligned alignment = m.allocPtr ∧
        m.placed size alignment boundary = m.aligned alignment := by
    constructor
    · intro heq
      have hle := (aligned_spec ha hw).1
      have hle' := aligned_le_placed hb hw
      rw [heq] at hle'
      have haligned : m.aligned alignment = m.allocPtr :=
        BitVec.eq_of_toNat_eq (Nat.le_antisymm hle' hle)
      exact ⟨haligned, heq.trans haligned.symm⟩
    · rintro ⟨haligned, hplaced⟩
      exact hplaced.trans haligned
  rw [hsplit, placed_eq_aligned_iff hb hw, aligned_eq_iff ha hw, StaysPut]
  refine and_congr_right fun hdvd => ?_
  rw [(aligned_eq_iff ha hw).mpr hdvd]

/-- A call that returns null leaves `alloc_ptr` alone, and all later calls as they would have been
without it, exactly when its roundings had nothing to do. -/
theorem failedAllocMem_unchanged_iff (m m' : MemoryPool) (size : BitVec 64)
    (alignment boundary : BitVec 32) (ha : IsAlignment alignment) (hb : IsAlignment boundary)
    (hw : m.NoWrap size alignment boundary)
    (hfail : m.allocMem size alignment boundary = (none, m')) :
    (m'.allocPtr = m.allocPtr ∧ ∀ calls, m'.results calls = m.results calls) ↔
      m.StaysPut size alignment boundary := by
  obtain rfl : m' = { m with allocPtr := m.placed size alignment boundary } := by
    rcases allocMem_cases hw hfail with ⟨-, hm⟩ | ⟨hsome, -⟩
    · exact hm
    · exact nomatch hsome
  rw [← placed_eq_allocPtr_iff ha hb hw]
  constructor
  · exact fun h => h.1
  · intro hplaced
    refine ⟨hplaced, fun calls => ?_⟩
    rw [hplaced]

/-- A pool of which 64 bytes are taken. -/
def nearlyNew : MemoryPool := ⟨0x1000#64, 0x1040#64⟩

theorem nearlyNew_noWrap : nearlyNew.NoWrap 0x30000#64 64#32 0#32 :=
  ⟨by decide, by decide, by decide, by decide, by decide⟩

theorem failedAllocMem_unchanged_iff_nearlyNew :
    ((nearlyNew.allocMem 0x30000#64 64#32 0#32).2.allocPtr = nearlyNew.allocPtr ∧
      ∀ calls, (nearlyNew.allocMem 0x30000#64 64#32 0#32).2.results calls =
        nearlyNew.results calls) ↔ nearlyNew.StaysPut 0x30000#64 64#32 0#32 :=
  failedAllocMem_unchanged_iff nearlyNew _ 0x30000#64 64#32 0#32 (.inr ⟨6, by decide⟩)
    (.inl rfl) nearlyNew_noWrap (by decide)

/-- A request that is too large, and not to cross 64 KiB: it takes 61376 bytes with it, and one
for 80000 bytes that would have fitted fails too. -/
theorem failedAllocMem_takes_space :
    (nearlyNew.allocMem 0x30000#64 64#32 0x10000#32).1 = none ∧
      (nearlyNew.allocMem 0x30000#64 64#32 0x10000#32).2.allocPtr = 0x10000#64 ∧
      (nearlyNew.allocMem 0x30000#64 64#32 0x10000#32).2.results [⟨80000#64, 64#32, 0#32⟩] =
        [none] ∧
      nearlyNew.results [⟨80000#64, 64#32, 0#32⟩] = [some 0x1040#64] := by
  decide

end MemoryPool

end TommyOS.Usb
