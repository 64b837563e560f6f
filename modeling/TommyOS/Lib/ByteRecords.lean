import Mathlib.Algebra.Order.Group.Nat
import Mathlib.Data.List.Flatten

/-!
# Records in bytes

Numbers as bytes with the low one first, memory that holds some bytes at an address, and tables
of records of one size that follow each other. Nothing here names a particular format.
-/

namespace ByteRecords

/-! ## Numbers -/

/-- The low `n` bytes of a number. -/
def leBytes : ℕ → ℕ → List (BitVec 8)
  | 0, _ => []
  | n + 1, v => BitVec.ofNat 8 v :: leBytes n (v / 256)

/-- The number that some bytes stand for. -/
def ofLE : List (BitVec 8) → ℕ
  | [] => 0
  | b :: bs => b.toNat + 256 * ofLE bs

@[simp] theorem length_leBytes (n v : ℕ) : (leBytes n v).length = n := by
  induction n generalizing v with
  | zero => rfl
  | succ n ih => rw [leBytes, List.length_cons, ih]

theorem ofLE_leBytes {n v : ℕ} (h : v < 256 ^ n) : ofLE (leBytes n v) = v := by
  induction n generalizing v with
  | zero =>
    rw [Nat.pow_zero] at h
    exact (Nat.lt_one_iff.mp h).symm
  | succ n ih =>
    have hrest : v / 256 < 256 ^ n := by
      rw [Nat.pow_succ] at h
      omega
    rw [leBytes, ofLE, ih hrest, BitVec.toNat_ofNat]
    omega

/-! ## Bytes in memory -/

variable {α ρ : Type*} {mem : ℕ → α}

/-- The bytes at an address. -/
def Holds (mem : ℕ → α) : ℕ → List α → Prop
  | _, [] => True
  | addr, b :: bs => mem addr = b ∧ Holds mem (addr + 1) bs

theorem holds_append {addr : ℕ} {bs cs : List α} :
    Holds mem addr (bs ++ cs) ↔ Holds mem addr bs ∧ Holds mem (addr + bs.length) cs := by
  induction bs generalizing addr with
  | nil => exact ⟨fun h => ⟨trivial, h⟩, fun h => h.2⟩
  | cons b bs ih =>
    rw [List.cons_append, Holds, Holds, ih, List.length_cons, and_assoc,
      Nat.add_assoc addr 1, Nat.add_comm 1]

/-- Only the bytes at these addresses matter. -/
theorem Holds.congr {mem' : ℕ → α} {addr : ℕ} {bs : List α} (h : Holds mem addr bs)
    (hsame : ∀ a, addr ≤ a → a < addr + bs.length → mem' a = mem a) : Holds mem' addr bs := by
  induction bs generalizing addr with
  | nil => trivial
  | cons b bs ih =>
    rw [List.length_cons] at hsame
    refine ⟨(hsame addr (Nat.le_refl _) (by omega)).trans h.1, ih h.2 fun a hlow hhigh => ?_⟩
    exact hsame a (by omega) (by omega)

theorem Holds.get {addr : ℕ} {bs : List α} (h : Holds mem addr bs) {i : ℕ} (hi : i < bs.length) :
    mem (addr + i) = bs.get ⟨i, hi⟩ := by
  induction bs generalizing addr i with
  | nil => exact absurd hi (Nat.not_lt_zero _)
  | cons b bs ih =>
    cases i with
    | zero => exact h.1
    | succ i =>
      have htail := ih h.2 (Nat.lt_of_succ_lt_succ hi)
      rw [Nat.add_assoc, Nat.add_comm 1] at htail
      exact htail

/-- Bytes put at an address. -/
def place (mem : ℕ → α) (addr : ℕ) (bs : List α) : ℕ → α :=
  fun a => if addr ≤ a then (bs[a - addr]?).getD (mem a) else mem a

theorem place_outside {addr : ℕ} {bs : List α} {a : ℕ} (h : a < addr ∨ addr + bs.length ≤ a) :
    place mem addr bs a = mem a := by
  unfold place
  rcases h with h | h
  · rw [if_neg (by omega)]
  · rw [if_pos (by omega), List.getElem?_eq_none (by omega), Option.getD_none]

theorem holds_place (mem : ℕ → α) (addr : ℕ) (bs : List α) :
    Holds (place mem addr bs) addr bs := by
  induction bs generalizing mem addr with
  | nil => trivial
  | cons b bs ih =>
    refine ⟨?_, ?_⟩
    · unfold place
      rw [if_pos (Nat.le_refl _), Nat.sub_self]
      rfl
    -- the rest is as if it alone was put behind the first byte
    · refine (ih mem (addr + 1)).congr fun a hlow hhigh => ?_
      unfold place
      rw [if_pos (by omega), if_pos hlow, show a - addr = (a - (addr + 1)) + 1 by omega]
      rfl

/-! ## Tables -/

/-- Records one after the other. -/
def table (encode : ρ → List α) (records : List ρ) : List α := records.flatMap encode

theorem length_table {encode : ρ → List α} {stride : ℕ} {records : List ρ}
    (hsize : ∀ r ∈ records, (encode r).length = stride) :
    (table encode records).length = stride * records.length := by
  induction records with
  | nil => rfl
  | cons r records ih =>
    rw [table, List.flatMap_cons, List.length_append, hsize r List.mem_cons_self]
    have hrest := ih fun r hr => hsize r (List.mem_cons_of_mem _ hr)
    unfold table at hrest
    rw [hrest, List.length_cons, Nat.mul_succ, Nat.add_comm]

/-- The first record of a table, and the table behind it. -/
theorem holds_table_cons {encode : ρ → List α} {addr : ℕ} {r : ρ} {records : List ρ} :
    Holds mem addr (table encode (r :: records)) ↔
      Holds mem addr (encode r) ∧ Holds mem (addr + (encode r).length) (table encode records) := by
  rw [table, List.flatMap_cons]
  exact holds_append

/-- `for (iter = first; iter < last; iter += stride)`, with the addresses that the body sees.
`advance` is the addition of the program; `none` is a loop that goes on when the fuel is used
up. -/
def strideLoop (advance : ℕ → ℕ → ℕ) (stride last : ℕ) : ℕ → ℕ → Option (List ℕ)
  | 0, _ => none
  | fuel + 1, iter =>
    if iter < last then
      (strideLoop advance stride last fuel (advance iter stride)).map (iter :: ·)
    else
      some []

/-- The loop over a table stops at each record. -/
theorem strideLoop_table {β : Type*} {advance : ℕ → ℕ → ℕ} {encode : ρ → List α}
    {stride : ℕ} (limit : ℕ) (hstride : 0 < stride)
    (hadvance : ∀ iter, iter + stride ≤ limit → advance iter stride = iter + stride)
    {decode : ℕ → β} {view : ρ → β}
    (hdecode : ∀ r iter, iter + (encode r).length ≤ limit → Holds mem iter (encode r) →
      decode iter = view r) {records : List ρ} (hsize : ∀ r ∈ records, (encode r).length = stride) :
    ∀ {first fuel : ℕ}, Holds mem first (table encode records) →
      first + stride * records.length ≤ limit → records.length < fuel →
      (strideLoop advance stride (first + stride * records.length) fuel first).map
          (fun iters => iters.map decode) = some (records.map view) := by
  induction records with
  | nil =>
    intro first fuel _ _ hfuel
    obtain ⟨fuel, rfl⟩ := Nat.exists_eq_succ_of_ne_zero (Nat.ne_of_gt hfuel)
    rw [List.length_nil, Nat.mul_zero, Nat.add_zero, strideLoop, if_neg (Nat.lt_irrefl _)]
    rfl
  | cons r records ih =>
    intro first fuel hholds hlimit hfuel
    obtain ⟨fuel, rfl⟩ := Nat.exists_eq_succ_of_ne_zero (Nat.ne_of_gt (by omega : 0 < fuel))
    rw [List.length_cons] at hlimit hfuel ⊢
    have hmul : stride * (records.length + 1) = stride + stride * records.length := by
      rw [Nat.mul_succ, Nat.add_comm]
    rw [hmul] at hlimit ⊢
    obtain ⟨hfirst, hrest⟩ := holds_table_cons.mp hholds
    have hdecoded := hdecode r first (by rw [hsize r List.mem_cons_self]; omega) hfirst
    rw [hsize r List.mem_cons_self] at hrest
    have hloop := ih (fun r hr => hsize r (List.mem_cons_of_mem _ hr)) hrest (by omega)
      (Nat.lt_of_succ_lt_succ hfuel)
    rw [strideLoop, if_pos (by omega), hadvance first (by omega), ← Nat.add_assoc,
      Option.map_map]
    rw [Option.map_eq_some_iff] at hloop ⊢
    obtain ⟨iters, hiters, hviews⟩ := hloop
    refine ⟨iters, hiters, ?_⟩
    rw [Function.comp_apply, List.map_cons, List.map_cons, hviews, hdecoded]

end ByteRecords
