import Mathlib.Algebra.Order.Group.Nat
import Mathlib.Tactic.Linarith

/-!
# The x86-64 page walk

Four-level translation of a virtual address as the processor performs it, over a physical
memory of 64-bit words. Only what decides whether and where an address is mapped is kept:
the present, writable and page-size bits and the address field of an entry.
-/

namespace X86Paging

/-! ## Entries -/

/-- Bit 0 of an entry. -/
def present (entry : BitVec 64) : Bool := entry.getLsbD 0

/-- Bit 1 of an entry. -/
def writable (entry : BitVec 64) : Bool := entry.getLsbD 1

/-- Bit 7 of an entry: it maps a page instead of naming a table. -/
def pageSize (entry : BitVec 64) : Bool := entry.getLsbD 7

/-- The address field of an entry, bits `shift` to 51. -/
def address (entry : BitVec 64) (shift : ℕ) : ℕ :=
  entry.toNat % 2 ^ 52 / 2 ^ shift * 2 ^ shift

section Entry

variable {a flags : ℕ}

/-- Flags below bit 12 or-ed into a page-aligned address do not disturb it. -/
theorem toNat_or_flags (ha : a % 2 ^ 12 = 0) (hlt : a < 2 ^ 52) (hflags : flags < 2 ^ 12) :
    (BitVec.ofNat 64 a ||| BitVec.ofNat 64 flags).toNat = a + flags := by
  have h52 : (2 : ℕ) ^ 52 < 2 ^ 64 := by norm_num
  have h12 : (2 : ℕ) ^ 12 < 2 ^ 64 := by norm_num
  have hq : 2 ^ 12 * (a / 2 ^ 12) = a := by omega
  rw [BitVec.toNat_or, BitVec.toNat_ofNat, BitVec.toNat_ofNat,
    Nat.mod_eq_of_lt (by omega), Nat.mod_eq_of_lt (by omega)]
  conv_lhs => rw [← hq]
  rw [← Nat.two_pow_add_eq_or_of_lt hflags, hq]

/-- The low bits of such an entry are its flags. -/
theorem getLsbD_or_flags (ha : a % 2 ^ 12 = 0) {i : ℕ} (hi : i < 12) :
    (BitVec.ofNat 64 a ||| BitVec.ofNat 64 flags).getLsbD i = flags.testBit i := by
  have hbit : a.testBit i = false := by
    have hq : a = 2 ^ 12 * (a / 2 ^ 12) + 0 := by omega
    rw [hq, Nat.testBit_two_pow_mul_add _ (by norm_num), if_pos hi, Nat.zero_testBit]
  have hw : i < 64 := by omega
  rw [BitVec.getLsbD_or, BitVec.getLsbD_ofNat, BitVec.getLsbD_ofNat, hbit]
  simp [hw]

/-- Its address field, read at a shift to which the address is aligned, is the address. -/
theorem address_or_flags {shift : ℕ} (ha : a % 2 ^ shift = 0) (hshift : 12 ≤ shift)
    (hlt : a + flags < 2 ^ 52) (hflags : flags < 2 ^ 12) :
    address (BitVec.ofNat 64 a ||| BitVec.ofNat 64 flags) shift = a := by
  have hdvd : 2 ^ 12 ∣ 2 ^ shift := pow_dvd_pow 2 hshift
  have ha12 : a % 2 ^ 12 = 0 :=
    Nat.mod_eq_zero_of_dvd (hdvd.trans (Nat.dvd_of_mod_eq_zero ha))
  have hle : 2 ^ 12 ≤ 2 ^ shift := Nat.pow_le_pow_right (by norm_num) hshift
  have hpos : 0 < 2 ^ shift := Nat.two_pow_pos shift
  rw [address, toNat_or_flags ha12 (by omega) hflags, Nat.mod_eq_of_lt hlt]
  -- the division by `2 ^ shift` drops the flags and nothing of the address
  have hq : a = 2 ^ shift * (a / 2 ^ shift) :=
    (Nat.mul_div_cancel' (Nat.dvd_of_mod_eq_zero ha)).symm
  have hdiv : (a + flags) / 2 ^ shift = a / 2 ^ shift := by
    conv_lhs => rw [hq]
    rw [Nat.mul_add_div hpos, Nat.div_eq_of_lt (show flags < 2 ^ shift by omega), Nat.add_zero]
  rw [hdiv, Nat.mul_comm, ← hq]

end Entry

/-! ## The walk -/

/-- The outcome of a walk that reaches a page: the physical address, the size of the page
and whether every entry on the way allows writes. -/
structure Translation where
  physical : ℕ
  size : ℕ
  writable : Bool
deriving DecidableEq, Repr

/-- Bits 47 to 63 of a canonical address are all equal. -/
def Canonical (v : ℕ) : Prop := v < 2 ^ 47 ∨ (2 ^ 64 - 2 ^ 47 ≤ v ∧ v < 2 ^ 64)

instance (v : ℕ) : Decidable (Canonical v) := inferInstanceAs (Decidable (_ ∨ _))

/-- The walk of the virtual address `v` from the top-level table at `cr3`: `none` for a
fault. -/
def walk (mem : ℕ → BitVec 64) (cr3 v : ℕ) : Option Translation :=
  if ¬ Canonical v then none
  else
    let e4 := mem (cr3 + 8 * (v / 2 ^ 39 % 512))
    if ¬ present e4 then none
    else
      let e3 := mem (address e4 12 + 8 * (v / 2 ^ 30 % 512))
      if ¬ present e3 then none
      else if pageSize e3 then
        some ⟨address e3 30 + v % 2 ^ 30, 2 ^ 30, writable e4 && writable e3⟩
      else
        let e2 := mem (address e3 12 + 8 * (v / 2 ^ 21 % 512))
        if ¬ present e2 then none
        else if pageSize e2 then
          some ⟨address e2 21 + v % 2 ^ 21, 2 ^ 21, writable e4 && writable e3 && writable e2⟩
        else
          let e1 := mem (address e2 12 + 8 * (v / 2 ^ 12 % 512))
          if ¬ present e1 then none
          else
            some ⟨address e1 12 + v % 2 ^ 12, 2 ^ 12,
              writable e4 && writable e3 && writable e2 && writable e1⟩

/-- The walk of `v` reads an entry whose present bit is clear. -/
def MeetsNotPresent (mem : ℕ → BitVec 64) (cr3 v : ℕ) : Prop :=
  let e4 := mem (cr3 + 8 * (v / 2 ^ 39 % 512))
  let e3 := mem (address e4 12 + 8 * (v / 2 ^ 30 % 512))
  let e2 := mem (address e3 12 + 8 * (v / 2 ^ 21 % 512))
  let e1 := mem (address e2 12 + 8 * (v / 2 ^ 12 % 512))
  ¬ present e4 ∨ ¬ present e3 ∨
    ¬ pageSize e3 ∧ (¬ present e2 ∨ ¬ pageSize e2 ∧ ¬ present e1)

variable {mem : ℕ → BitVec 64} {cr3 v : ℕ}

/-- A canonical address faults only at an entry that is not present. -/
theorem walk_eq_none_iff (hv : Canonical v) :
    walk mem cr3 v = none ↔ MeetsNotPresent mem cr3 v := by
  unfold walk MeetsNotPresent
  rw [if_neg (not_not.mpr hv)]
  dsimp only
  generalize mem (cr3 + 8 * (v / 2 ^ 39 % 512)) = e4
  generalize mem (address e4 12 + 8 * (v / 2 ^ 30 % 512)) = e3
  generalize mem (address e3 12 + 8 * (v / 2 ^ 21 % 512)) = e2
  generalize mem (address e2 12 + 8 * (v / 2 ^ 12 % 512)) = e1
  -- level by level: the entry is absent, maps a page, or names the table of the next level
  by_cases h4 : present e4
  · by_cases h3 : present e3
    · by_cases hs3 : pageSize e3
      · simp [h4, h3, hs3]
      · by_cases h2 : present e2
        · by_cases hs2 : pageSize e2
          · simp [h4, h3, hs3, h2, hs2]
          · simp [h4, h3, hs3, h2, hs2]
        · simp [h4, h3, hs3, h2]
    · simp [h4, h3]
  · simp [h4]

theorem walk_of_not_present4 (h : present (mem (cr3 + 8 * (v / 2 ^ 39 % 512))) = false) :
    walk mem cr3 v = none := by
  unfold walk
  split
  · rfl
  · simp only [h, Bool.false_eq_true, not_false_eq_true, if_true]

theorem walk_of_not_present3 {e : BitVec 64} (h4 : mem (cr3 + 8 * (v / 2 ^ 39 % 512)) = e)
    (h : present (mem (address e 12 + 8 * (v / 2 ^ 30 % 512))) = false) :
    walk mem cr3 v = none := by
  unfold walk
  split
  · rfl
  · simp only [h4, h, Bool.false_eq_true, not_false_eq_true, if_true, ite_self]

/-- A walk that ends at a 2 MiB page. -/
theorem walk_of_large_page {e4 e3 e2 : BitVec 64} (hv : Canonical v)
    (h4 : mem (cr3 + 8 * (v / 2 ^ 39 % 512)) = e4) (hp4 : present e4 = true)
    (h3 : mem (address e4 12 + 8 * (v / 2 ^ 30 % 512)) = e3) (hp3 : present e3 = true)
    (hs3 : pageSize e3 = false)
    (h2 : mem (address e3 12 + 8 * (v / 2 ^ 21 % 512)) = e2) (hp2 : present e2 = true)
    (hs2 : pageSize e2 = true) :
    walk mem cr3 v = some ⟨address e2 21 + v % 2 ^ 21, 2 ^ 21,
      writable e4 && writable e3 && writable e2⟩ := by
  unfold walk
  rw [if_neg (not_not.mpr hv)]
  simp only [h4, hp4, h3, hp3, hs3, h2, hp2, hs2, not_true_eq_false, if_false, if_true,
    Bool.false_eq_true]

end X86Paging
