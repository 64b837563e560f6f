import TommyOS.Lib.TransitionSystem
import Mathlib.Data.Set.Disjoint
import Mathlib.Data.Set.Lattice
import Mathlib.Order.CompletePartialOrder

/-!
# Region allocators

What an allocator of disjoint regions is for, independently of how it searches or stores
anything: out of an arena of cells, some of them reserved, it hands out blocks of cells
that are not in use and takes them back. `Separated` is the promise a client relies on,
and every run of the allocator keeps it.
-/

namespace RegionAllocator

variable {ι κ : Type*} (cells : ι → Set κ) (arena reserved : Set κ)

/-- A cell is in use when it is reserved or belongs to a live block. -/
def InUse (live : List ι) (k : κ) : Prop :=
  k ∈ reserved ∨ ∃ blk ∈ live, k ∈ cells blk

/-- One operation of the allocator on the list of live blocks. -/
inductive Step [DecidableEq ι] : List ι → List ι → Prop where
  | alloc {live : List ι} {blk : ι} : cells blk ⊆ arena →
      (∀ k ∈ cells blk, ¬ InUse cells reserved live k) → Step live (blk :: live)
  | free {live : List ι} {blk : ι} : blk ∈ live → Step live (live.erase blk)

/-- The runs of an allocator that starts with no live block. -/
def system [DecidableEq ι] : TransitionSystem (List ι) where
  init live := live = []
  step := Step cells arena reserved

/-- Live blocks lie in the arena, off the reserved cells, and off one another. -/
structure Separated (live : List ι) : Prop where
  pairwise : live.Pairwise fun x y => Disjoint (cells x) (cells y)
  subset : ∀ blk ∈ live, cells blk ⊆ arena
  reserved : ∀ blk ∈ live, Disjoint (cells blk) reserved

variable {cells arena reserved}

theorem Separated.nil : Separated cells arena reserved [] :=
  ⟨List.Pairwise.nil, fun _ h => absurd h List.not_mem_nil,
    fun _ h => absurd h List.not_mem_nil⟩

/-- A block of unused arena cells keeps the live blocks separated. -/
theorem Separated.cons {live : List ι} {blk : ι} (h : Separated cells arena reserved live)
    (hsub : cells blk ⊆ arena) (hfree : ∀ k ∈ cells blk, ¬ InUse cells reserved live k) :
    Separated cells arena reserved (blk :: live) := by
  refine ⟨List.pairwise_cons.mpr ⟨?_, h.pairwise⟩, ?_, ?_⟩
  · intro other hother
    rw [Set.disjoint_left]
    intro k hk hk'
    exact hfree k hk (Or.inr ⟨other, hother, hk'⟩)
  · intro other hother
    rcases List.mem_cons.mp hother with heq | hmem
    · rw [heq]; exact hsub
    · exact h.subset other hmem
  · intro other hother
    rcases List.mem_cons.mp hother with heq | hmem
    · rw [heq, Set.disjoint_left]
      intro k hk hres
      exact hfree k hk (Or.inl hres)
    · exact h.reserved other hmem

/-- Dropping blocks keeps the rest separated. -/
theorem Separated.sublist {live live' : List ι} (h : Separated cells arena reserved live)
    (hsub : live'.Sublist live) : Separated cells arena reserved live' :=
  ⟨h.pairwise.sublist hsub, fun blk hblk => h.subset blk (hsub.subset hblk),
    fun blk hblk => h.reserved blk (hsub.subset hblk)⟩

/-- Every run keeps the live blocks separated. -/
theorem separated_of_reachable [DecidableEq ι] {live : List ι}
    (h : (system cells arena reserved).Reachable live) :
    Separated cells arena reserved live := by
  apply h.invariant (P := Separated cells arena reserved)
  · intro s hs
    rw [show s = [] from hs]
    exact Separated.nil
  · intro s t _ ih hst
    cases hst with
    | alloc hsub hfree => exact ih.cons hsub hfree
    | free _ => exact ih.sublist List.erase_sublist

/-! ## Which cells an operation changes -/

/-- Handing out a block puts exactly its cells into use. -/
theorem inUse_cons {live : List ι} {blk : ι} {k : κ} :
    InUse cells reserved (blk :: live) k ↔ k ∈ cells blk ∨ InUse cells reserved live k := by
  simp only [InUse, List.mem_cons, exists_eq_or_imp]
  exact or_left_comm

/-- The blocks are the same whatever order they are listed in. -/
theorem inUse_perm {live live' : List ι} (h : live.Perm live') {k : κ} :
    InUse cells reserved live k ↔ InUse cells reserved live' k := by
  simp only [InUse, h.mem_iff]

/-- Taking back a block of a separated list releases exactly its cells. -/
theorem inUse_of_cons {live : List ι} {blk : ι}
    (h : Separated cells arena reserved (blk :: live)) {k : κ} :
    InUse cells reserved live k ↔ InUse cells reserved (blk :: live) k ∧ k ∉ cells blk := by
  rw [inUse_cons]
  have hpair := List.pairwise_cons.mp h.pairwise
  -- a cell of the block that stayed in use would be reserved or shared with another block
  have hoff : InUse cells reserved live k → k ∉ cells blk := by
    intro huse hk
    rcases huse with hres | ⟨other, hother, hk'⟩
    · exact Set.disjoint_left.mp (h.reserved blk List.mem_cons_self) hk hres
    · exact Set.disjoint_left.mp (hpair.1 other hother) hk hk'
  by_cases hk : k ∈ cells blk
  · exact iff_of_false (fun huse => hoff huse hk) (fun hc => hc.2 hk)
  · simp [hk]

/-- A separated list stays separated under reordering. -/
theorem Separated.perm {live live' : List ι} (h : Separated cells arena reserved live)
    (hperm : live.Perm live') : Separated cells arena reserved live' :=
  ⟨(hperm.pairwise_iff fun hd => hd.symm).mp h.pairwise,
    fun blk hblk => h.subset blk (hperm.mem_iff.mpr hblk),
    fun blk hblk => h.reserved blk (hperm.mem_iff.mpr hblk)⟩

/-- `inUse_of_cons` for a block anywhere in the list. -/
theorem inUse_erase [DecidableEq ι] {live : List ι} {blk : ι}
    (h : Separated cells arena reserved live) (hblk : blk ∈ live) {k : κ} :
    InUse cells reserved (live.erase blk) k ↔ InUse cells reserved live k ∧ k ∉ cells blk := by
  have hperm := List.perm_cons_erase hblk
  rw [inUse_perm hperm]
  exact inUse_of_cons (h.perm hperm)

end RegionAllocator
