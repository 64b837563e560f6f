import TommyOS.Lib.RegionAllocator
import TommyOS.Usb.Memory
import Mathlib.Order.Interval.Set.Defs

/-!
# What `AllocMem` hands out

The pool is a bump allocator, so a client is safe when each block is where it asked for and
blocks of different calls are separated. `placed_spec` says where one call puts its block;
`poolSystem` collects the blocks of a sequence of calls, and refines the allocator of disjoint
regions.
-/

namespace TommyOS.Usb

open Alignment

/-- What `AllocMem` takes as an alignment or as a boundary: no constraint or a power of two. -/
def IsAlignment (a : BitVec 32) : Prop := a = 0 ∨ ∃ k, a.toNat = 2 ^ k

theorem IsAlignment.exists_pow {a : BitVec 32} (h : IsAlignment a) (hpos : 0 < a) :
    ∃ k, a.toNat = 2 ^ k := by
  rcases h with h0 | hk
  · subst h0
    exact absurd hpos (by decide)
  · exact hk

theorem toNat_pos_of_pos {a : BitVec 32} (h : 0 < a) : 0 < a.toNat := by
  rw [BitVec.lt_def] at h
  exact h

theorem toNat_ceil {value : BitVec 64} {alignment : BitVec 32} {k : ℕ}
    (hk : alignment.toNat = 2 ^ k) (hwrap : value.toNat + alignment.toNat ≤ 2 ^ 64) :
    (ceil value alignment).toNat = ceilTo value.toNat alignment.toNat := by
  have hpos : 0 < alignment.toNat := by
    rw [hk]
    exact Nat.two_pow_pos k
  have hmask : (alignment - 1).setWidth 64 = BitVec.ofNat 64 (2 ^ k - 1) := by
    have h1 : (1 : BitVec 32).toNat = 1 := rfl
    have hlt := alignment.isLt
    apply BitVec.eq_of_toNat_eq
    rw [BitVec.toNat_setWidth, BitVec.toNat_sub, BitVec.toNat_ofNat, h1, ← hk]
    omega
  have hsum : (value + alignment.setWidth 64 - 1).toNat = value.toNat + alignment.toNat - 1 := by
    have h1 : (1 : BitVec 64).toNat = 1 := rfl
    have hlt := alignment.isLt
    rw [BitVec.toNat_sub, BitVec.toNat_add, BitVec.toNat_setWidth, h1]
    omega
  rw [ceil, hmask, toNat_and_not_mask, hsum, ceilTo, hk]

namespace MemoryPool

/-- The end of the pool. -/
def poolEnd (m : MemoryPool) : ℕ := m.memoryPool.toNat + kMemoryPoolSize.toNat

/-- No address computation of a call leaves the 64 bits. -/
structure NoWrap (m : MemoryPool) (size : BitVec 64) (alignment boundary : BitVec 32) :
    Prop where
  pool : m.poolEnd < 2 ^ 64
  ceil : 0 < alignment → m.allocPtr.toNat + alignment.toNat ≤ 2 ^ 64
  ceilBoundary : 0 < boundary → (m.aligned alignment).toNat + boundary.toNat ≤ 2 ^ 64
  alignedEnd : 0 < boundary → (m.aligned alignment).toNat + size.toNat < 2 ^ 64
  placedEnd : (m.placed size alignment boundary).toNat + size.toNat < 2 ^ 64

/-! ## Where a call puts its block -/

section
variable {m : MemoryPool} {size : BitVec 64} {alignment boundary : BitVec 32}

/-- The first rounding. -/
theorem aligned_spec (ha : IsAlignment alignment) (hw : m.NoWrap size alignment boundary) :
    m.allocPtr.toNat ≤ (m.aligned alignment).toNat ∧
      (0 < alignment → alignment.toNat ∣ (m.aligned alignment).toNat) := by
  unfold aligned
  by_cases hpos : 0 < alignment
  · obtain ⟨k, hk⟩ := ha.exists_pow hpos
    rw [if_pos hpos, toNat_ceil hk (hw.ceil hpos)]
    exact ⟨le_ceilTo (toNat_pos_of_pos hpos), fun _ => dvd_ceilTo _ _⟩
  · rw [if_neg hpos]
    exact ⟨le_refl _, fun h => absurd h hpos⟩

/-- The second rounding goes to the next boundary when the block would end behind it. -/
theorem toNat_placed (hb : IsAlignment boundary) (hw : m.NoWrap size alignment boundary)
    (hpos : 0 < boundary) :
    (m.placed size alignment boundary).toNat
      = if ceilTo (m.aligned alignment).toNat boundary.toNat
          < (m.aligned alignment).toNat + size.toNat
        then ceilTo (m.aligned alignment).toNat boundary.toNat
        else (m.aligned alignment).toNat := by
  obtain ⟨k, hk⟩ := hb.exists_pow hpos
  have hceil := toNat_ceil hk (hw.ceilBoundary hpos)
  have hsum : (m.aligned alignment + size).toNat = (m.aligned alignment).toNat + size.toNat := by
    rw [BitVec.toNat_add]
    exact Nat.mod_eq_of_lt (hw.alignedEnd hpos)
  unfold placed
  rw [if_pos hpos, ← hceil, ← hsum]
  simp only [BitVec.lt_def]
  rw [apply_ite BitVec.toNat]

theorem placed_of_no_boundary (hpos : ¬ 0 < boundary) :
    m.placed size alignment boundary = m.aligned alignment := by
  unfold placed
  rw [if_neg hpos]

theorem aligned_le_placed (hb : IsAlignment boundary) (hw : m.NoWrap size alignment boundary) :
    (m.aligned alignment).toNat ≤ (m.placed size alignment boundary).toNat := by
  by_cases hpos : 0 < boundary
  · rw [toNat_placed hb hw hpos]
    have hle := le_ceilTo (n := (m.aligned alignment).toNat) (toNat_pos_of_pos hpos)
    split <;> omega
  · rw [placed_of_no_boundary hpos]

theorem allocPtr_le_placed (ha : IsAlignment alignment) (hb : IsAlignment boundary)
    (hw : m.NoWrap size alignment boundary) :
    m.allocPtr.toNat ≤ (m.placed size alignment boundary).toNat :=
  le_trans (aligned_spec ha hw).1 (aligned_le_placed hb hw)

/-- The second rounding keeps the alignment of the first. -/
theorem dvd_placed (ha : IsAlignment alignment) (hb : IsAlignment boundary)
    (hw : m.NoWrap size alignment boundary) (hpos : 0 < alignment) :
    alignment.toNat ∣ (m.placed size alignment boundary).toNat := by
  have haligned := (aligned_spec ha hw).2 hpos
  by_cases hbpos : 0 < boundary
  · obtain ⟨i, hi⟩ := ha.exists_pow hpos
    obtain ⟨j, hj⟩ := hb.exists_pow hbpos
    have hcomp : alignment.toNat ∣ boundary.toNat ∨ boundary.toNat ∣ alignment.toNat := by
      rw [hi, hj]
      exact two_pow_dvd_or i j
    rw [toNat_placed hb hw hbpos]
    split
    · exact dvd_ceilTo_of_dvd (toNat_pos_of_pos hbpos) hcomp haligned
    · exact haligned
  · rw [placed_of_no_boundary hbpos]
    exact haligned

/-- A block no larger than the boundary has no multiple of the boundary inside. -/
theorem placed_not_crossing (hb : IsAlignment boundary) (hw : m.NoWrap size alignment boundary)
    (hpos : 0 < boundary) (hle : size.toNat ≤ boundary.toNat) {k : ℕ}
    (h1 : (m.placed size alignment boundary).toNat < k)
    (h2 : k < (m.placed size alignment boundary).toNat + size.toNat) :
    ¬ boundary.toNat ∣ k := by
  have hbpos := toNat_pos_of_pos hpos
  rw [toNat_placed hb hw hpos] at h1 h2
  intro hdvd
  split at h1
  · case isTrue hmoved =>
    -- the block starts at a multiple, and the next one is a whole boundary away
    rw [if_pos hmoved] at h2
    have hnext : ceilTo (m.aligned alignment).toNat boundary.toNat + boundary.toNat ≤ k := by
      obtain ⟨q, hq⟩ := dvd_ceilTo (m.aligned alignment).toNat boundary.toNat
      obtain ⟨r, rfl⟩ := hdvd
      rw [hq] at h1 ⊢
      have hqr := Nat.lt_of_mul_lt_mul_left h1
      calc boundary.toNat * q + boundary.toNat = boundary.toNat * (q + 1) := rfl
        _ ≤ boundary.toNat * r := Nat.mul_le_mul_left _ hqr
    omega
  · case isFalse hstay =>
    rw [if_neg hstay] at h2
    have := ceilTo_le hbpos hdvd (le_of_lt h1)
    omega

theorem toNat_placed_add (hw : m.NoWrap size alignment boundary) :
    (m.placed size alignment boundary + size).toNat
      = (m.placed size alignment boundary).toNat + size.toNat := by
  rw [BitVec.toNat_add]
  exact Nat.mod_eq_of_lt hw.placedEnd

/-- The block that `placed` says is handed out when it ends inside the pool. -/
theorem allocMem_eq (hw : m.NoWrap size alignment boundary) :
    m.allocMem size alignment boundary
      = if m.poolEnd < (m.placed size alignment boundary).toNat + size.toNat then
          (none, { m with allocPtr := m.placed size alignment boundary })
        else
          (some (m.placed size alignment boundary),
            { m with allocPtr := m.placed size alignment boundary + size }) := by
  have hend : (m.memoryPool + kMemoryPoolSize).toNat = m.poolEnd := by
    rw [BitVec.toNat_add]
    exact Nat.mod_eq_of_lt hw.pool
  unfold allocMem
  simp only [BitVec.lt_def, toNat_placed_add hw, hend]

/-- The two ways a call ends. -/
theorem allocMem_cases {r : Option (BitVec 64)} {m' : MemoryPool}
    (hw : m.NoWrap size alignment boundary)
    (h : m.allocMem size alignment boundary = (r, m')) :
    (r = none ∧ m' = { m with allocPtr := m.placed size alignment boundary }) ∨
    (r = some (m.placed size alignment boundary) ∧
      (m.placed size alignment boundary).toNat + size.toNat ≤ m.poolEnd ∧
      m' = { m with allocPtr := m.placed size alignment boundary + size }) := by
  rw [allocMem_eq hw] at h
  split at h
  · cases h
    exact Or.inl ⟨rfl, rfl⟩
  · case isFalse hle =>
    cases h
    exact Or.inr ⟨rfl, Nat.le_of_not_lt hle, rfl⟩

end

/-! ## Sequences of calls -/

/-- A block that a call returned, with what the call asked for. -/
structure Block where
  address : BitVec 64
  size : BitVec 64
  alignment : BitVec 32
  boundary : BitVec 32

/-- The addresses of a block. -/
def Block.cells (b : Block) : Set ℕ :=
  Set.Ico b.address.toNat (b.address.toNat + b.size.toNat)

/-- The block is where the call asked for: at a multiple of the alignment, and across no multiple
of the boundary unless it is larger than that. -/
structure Block.Placed (b : Block) : Prop where
  aligned : 0 < b.alignment → b.alignment.toNat ∣ b.address.toNat
  boundary : 0 < b.boundary → b.size.toNat ≤ b.boundary.toNat → ∀ k, b.address.toNat < k →
    k < b.address.toNat + b.size.toNat → ¬ b.boundary.toNat ∣ k

/-- A pool and the blocks it handed out, the last one first. -/
structure History where
  pool : MemoryPool
  blocks : List Block

/-- One call of `AllocMem` with constraints it is made for. -/
inductive History.Step : History → History → Prop where
  | failed {s : History} {size : BitVec 64} {alignment boundary : BitVec 32} {m' : MemoryPool} :
      IsAlignment alignment → IsAlignment boundary →
      s.pool.NoWrap size alignment boundary →
      s.pool.allocMem size alignment boundary = (none, m') →
      Step s { s with pool := m' }
  | allocated {s : History} {size : BitVec 64} {alignment boundary : BitVec 32}
      {p : BitVec 64} {m' : MemoryPool} :
      IsAlignment alignment → IsAlignment boundary →
      s.pool.NoWrap size alignment boundary →
      s.pool.allocMem size alignment boundary = (some p, m') →
      Step s ⟨m', ⟨p, size, alignment, boundary⟩ :: s.blocks⟩

/-- The sequences of calls on a pool at the address `memoryPool`. -/
def poolSystem (memoryPool : BitVec 64) : TransitionSystem History where
  init s := s = ⟨MemoryPool.new memoryPool, []⟩
  step := History.Step

/-- The addresses of `memory_pool`. -/
def arena (memoryPool : BitVec 64) : Set ℕ :=
  Set.Ico memoryPool.toNat (memoryPool.toNat + kMemoryPoolSize.toNat)

/-- The block is part of `memory_pool`. -/
def Block.Inside (memoryPool : BitVec 64) (b : Block) : Prop :=
  memoryPool.toNat ≤ b.address.toNat ∧
    b.address.toNat + b.size.toNat ≤ memoryPool.toNat + kMemoryPoolSize.toNat

theorem Block.Inside.cells_subset {memoryPool : BitVec 64} {b : Block}
    (h : b.Inside memoryPool) : b.cells ⊆ arena memoryPool :=
  fun _ hk => ⟨le_trans h.1 hk.1, lt_of_lt_of_le hk.2 h.2⟩

/-- The blocks are inside the pool and end where the rest of it begins. -/
structure History.Invariant (memoryPool : BitVec 64) (s : History) : Prop where
  poolAddress : s.pool.memoryPool = memoryPool
  start : memoryPool.toNat ≤ s.pool.allocPtr.toNat
  ends : ∀ b ∈ s.blocks, b.address.toNat + b.size.toNat ≤ s.pool.allocPtr.toNat
  inside : ∀ b ∈ s.blocks, b.Inside memoryPool
  placed : ∀ b ∈ s.blocks, b.Placed

/-- A block that is handed out starts behind all earlier ones and is where it should be. -/
theorem History.Invariant.allocated {memoryPool : BitVec 64} {s : History}
    (h : s.Invariant memoryPool) {size : BitVec 64} {alignment boundary : BitVec 32}
    {p : BitVec 64} {m' : MemoryPool} (ha : IsAlignment alignment) (hb : IsAlignment boundary)
    (hw : s.pool.NoWrap size alignment boundary)
    (hcall : s.pool.allocMem size alignment boundary = (some p, m')) :
    s.pool.allocPtr.toNat ≤ p.toNat ∧
      Block.Inside memoryPool ⟨p, size, alignment, boundary⟩ ∧
      Block.Placed ⟨p, size, alignment, boundary⟩ ∧
      m'.memoryPool = memoryPool ∧ m'.allocPtr.toNat = p.toNat + size.toNat := by
  have hle := allocPtr_le_placed ha hb hw
  have hadd := toNat_placed_add hw
  have hpool : s.pool.poolEnd = memoryPool.toNat + kMemoryPoolSize.toNat := by
    rw [poolEnd, h.poolAddress]
  rcases allocMem_cases hw hcall with ⟨hr, _⟩ | ⟨hr, hend, hm⟩
  · cases hr
  · cases hr
    subst hm
    have hplaced : Block.Placed ⟨s.pool.placed size alignment boundary, size, alignment,
        boundary⟩ :=
      ⟨fun hpos => dvd_placed ha hb hw hpos,
        fun hpos hsize k h1 h2 => placed_not_crossing hb hw hpos hsize h1 h2⟩
    exact ⟨hle, ⟨le_trans h.start hle, hpool ▸ hend⟩, hplaced, h.poolAddress, hadd⟩

theorem History.Invariant.step {memoryPool : BitVec 64} {s t : History}
    (h : s.Invariant memoryPool) (hstep : Step s t) : t.Invariant memoryPool := by
  -- a failed request may still round the pointer up, and hands nothing out
  cases hstep with
  | failed ha hb hw hcall =>
    have hle := allocPtr_le_placed ha hb hw
    rcases allocMem_cases hw hcall with ⟨_, hm⟩ | ⟨hr, _⟩
    · subst hm
      exact ⟨h.poolAddress, le_trans h.start hle,
        fun b hmem => le_trans (h.ends b hmem) hle, h.inside, h.placed⟩
    · cases hr
  | allocated ha hb hw hcall =>
    obtain ⟨hle, hinside, hplaced, hpool, hptr⟩ := h.allocated ha hb hw hcall
    have hstart := h.start
    constructor
    case poolAddress => exact hpool
    case start =>
      rw [hptr]
      omega
    case ends =>
      intro b hmem
      rw [hptr]
      rcases List.mem_cons.mp hmem with heq | hold
      · rw [heq]
      · have := h.ends b hold
        omega
    case inside => exact List.forall_mem_cons.mpr ⟨hinside, h.inside⟩
    case placed => exact List.forall_mem_cons.mpr ⟨hplaced, h.placed⟩

theorem History.invariant_of_reachable {memoryPool : BitVec 64} {s : History}
    (h : (poolSystem memoryPool).Reachable s) : s.Invariant memoryPool := by
  apply h.invariant (P := History.Invariant memoryPool)
  · intro s hs
    rw [show s = ⟨MemoryPool.new memoryPool, []⟩ from hs]
    have hnil : ∀ {P : Block → Prop}, ∀ b ∈ ([] : List Block), P b :=
      fun b hmem => absurd hmem List.not_mem_nil
    exact ⟨rfl, le_refl _, hnil, hnil, hnil⟩
  · intro s t _ ih hst
    exact ih.step hst

/-- `AllocMem` is an allocator of disjoint regions of the pool: a call that returns a block hands
it out, and a call that fails does nothing. -/
theorem poolSystem_simulates [DecidableEq Block] (memoryPool : BitVec 64) :
    (poolSystem memoryPool).Simulates
      (RegionAllocator.system Block.cells (arena memoryPool) ∅)
      (fun s live => live = s.blocks ∧ s.Invariant memoryPool) where
  init s hs := by
    have hinv := History.invariant_of_reachable (.start hs)
    rw [show s = ⟨MemoryPool.new memoryPool, []⟩ from hs] at hinv ⊢
    exact ⟨[], rfl, rfl, hinv⟩
  step s t live _ hR hst := by
    obtain ⟨rfl, hinv⟩ := hR
    have hinv' := hinv.step hst
    cases hst with
    | failed => exact Or.inl ⟨rfl, hinv'⟩
    | allocated ha hb hw hcall =>
      right
      obtain ⟨hle, hinside, _⟩ := hinv.allocated ha hb hw hcall
      refine ⟨_, .alloc hinside.cells_subset ?_, rfl, hinv'⟩
      intro k hk huse
      rcases huse with hres | ⟨b, hmem, hkb⟩
      · exact hres
      · -- the block would have to start before the rest of the pool does
        have hends := hinv.ends b hmem
        exact absurd (lt_of_lt_of_le hkb.2 (le_trans hends hle)) (not_lt.mpr hk.1)

/-- In every sequence of calls each block is inside the pool, apart from every block handed out
before or after it, at a multiple of the alignment it was asked for, and, when it is no larger
than its boundary, across no multiple of that. -/
theorem allocMem_blocks_separated {memoryPool : BitVec 64} {s : History}
    (h : (poolSystem memoryPool).Reachable s) :
    s.blocks.Pairwise (fun x y => Disjoint x.cells y.cells) ∧
      ∀ b ∈ s.blocks, b.Inside memoryPool ∧ b.Placed := by
  classical
  obtain ⟨live, hlive, hR, hinv⟩ := (poolSystem_simulates memoryPool).reachable h
  rw [hR] at hlive
  have hsep := RegionAllocator.separated_of_reachable hlive
  exact ⟨hsep.pairwise, fun b hmem => ⟨hinv.inside b hmem, hinv.placed b hmem⟩⟩

/-- Two blocks of a run, the second moved to the boundary it would have crossed. -/
theorem allocMem_blocks_separated_two :
    let x : Block := ⟨0x1000, 4000, 64, 4096⟩
    let y : Block := ⟨0x2000, 512, 64, 4096⟩
    Disjoint y.cells x.cells ∧ y.Inside 0x1000 ∧ y.Placed := by
  have hstart : (poolSystem 0x1000).Reachable ⟨MemoryPool.new 0x1000, []⟩ := .start rfl
  have hfirst : (poolSystem 0x1000).Reachable
      ⟨⟨0x1000, 0x1fa0⟩, [⟨0x1000, 4000, 64, 4096⟩]⟩ :=
    .next hstart (.allocated (Or.inr ⟨6, rfl⟩) (Or.inr ⟨12, rfl⟩)
      ⟨by decide, by decide, by decide, by decide, by decide⟩ (by decide))
  have hsecond : (poolSystem 0x1000).Reachable
      ⟨⟨0x1000, 0x2200⟩, [⟨0x2000, 512, 64, 4096⟩, ⟨0x1000, 4000, 64, 4096⟩]⟩ :=
    .next hfirst (.allocated (Or.inr ⟨6, rfl⟩) (Or.inr ⟨12, rfl⟩)
      ⟨by decide, by decide, by decide, by decide, by decide⟩ (by decide))
  have hsep := allocMem_blocks_separated hsecond
  exact ⟨(List.pairwise_cons.mp hsep.1).1 _ List.mem_cons_self, hsep.2 _ List.mem_cons_self⟩

end MemoryPool
end TommyOS.Usb
