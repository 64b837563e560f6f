import TommyOS.Lib.RegionAllocator
import TommyOS.MemoryManager.BitmapMemoryManagerTheorems

/-!
# Runs of the frame allocator

`BitmapMemoryManager` over its whole life: constructed, told which frames to keep out of
and which range to search, and then asked to allocate blocks and to free them again in any
order. The runs refine the region allocator whose arena is the search range and whose
reserved cells are the frames marked at the start; `alloc_map_` is the set of cells in use.
-/

namespace TommyOS

/-- `num_frames` frames from `start_frame`. -/
structure Block where
  start : ℕ
  size : ℕ
deriving DecidableEq, Repr

/-- The frames of a block. -/
def Block.frames (blk : Block) : Set ℕ := {f | blk.start ≤ f ∧ f < blk.start + blk.size}

theorem Block.mem_frames {blk : Block} {f : ℕ} :
    f ∈ blk.frames ↔ blk.start ≤ f ∧ f < blk.start + blk.size := Iff.rfl

theorem Block.mem_range' {blk : Block} {f : ℕ} :
    f ∈ List.range' blk.start blk.size ↔ f ∈ blk.frames := List.mem_range'_1

namespace BitmapMemoryManager

/-- A list of `MarkAllocated` calls. -/
def markAll (m : BitmapMemoryManager) (marks : List Block) : Option BitmapMemoryManager :=
  marks.foldlM (fun m blk => markAllocated m blk.start blk.size) m

/-- A list of `Free` calls. -/
def freeAll (m : BitmapMemoryManager) (blocks : List Block) : Option BitmapMemoryManager :=
  blocks.foldlM (fun m blk => (free m blk.start blk.size).map Prod.snd) m

/-- A fresh manager with some frames marked and a search range. -/
def setUp (marks : List Block) (rangeBegin rangeEnd : ℕ) : Option BitmapMemoryManager :=
  (new.markAll marks).map fun m => m.setMemoryRange rangeBegin rangeEnd

end BitmapMemoryManager

/-- The manager together with the blocks its clients hold. -/
structure AllocatorState where
  manager : BitmapMemoryManager
  live : List Block

/-- One call: an `Allocate` that returns a block, one that returns an error, or a `Free` of
a block that is still held. -/
inductive AllocatorStep : AllocatorState → AllocatorState → Prop where
  | allocate {st : AllocatorState} {n s : ℕ} {m : BitmapMemoryManager} : 0 < n →
      st.manager.allocate n = some (⟨s, .kSuccess⟩, m) →
      AllocatorStep st ⟨m, ⟨s, n⟩ :: st.live⟩
  | refuse {st : AllocatorState} {n v : ℕ} {err : Error} {m : BitmapMemoryManager} : 0 < n →
      st.manager.allocate n = some (⟨v, err⟩, m) → err.failed = true →
      AllocatorStep st ⟨m, st.live⟩
  | free {st : AllocatorState} {blk : Block} {err : Error} {m : BitmapMemoryManager} :
      blk ∈ st.live → st.manager.free blk.start blk.size = some (err, m) →
      AllocatorStep st ⟨m, st.live.erase blk⟩

/-- The runs of the frame allocator after `MarkAllocated` on `marks` and
`SetMemoryRange(b, e)`. -/
def frameAllocator (marks : List Block) (b e : ℕ) : TransitionSystem AllocatorState where
  init st := st.live = [] ∧ BitmapMemoryManager.setUp marks b e = some st.manager
  step := AllocatorStep

/-- The frames of `[b, e)`. -/
def frameRange (b e : ℕ) : Set ℕ := {f | b ≤ f ∧ f < e}

/-- The frames of a list of blocks. -/
def framesOf (blocks : List Block) : Set ℕ := {f | ∃ blk ∈ blocks, f ∈ blk.frames}

open BitmapMemoryManager RegionAllocator

/-! ## The set-up -/

theorem markBlock_eq_some (m : BitmapMemoryManager) {blk : Block}
    (h : ∀ f ∈ blk.frames, f < kFrameCount) :
    ∃ m', m.markAllocated blk.start blk.size = some m' ∧
      Assigned m (List.range' blk.start blk.size) true m' := by
  by_cases hsize : blk.size = 0
  -- an empty block has no last frame to bound it, and its loop does not run
  · refine ⟨m, by rw [hsize, markAllocated_zero], rfl, rfl, fun k => ?_⟩
    simp [hsize]
  · have hlast := h (blk.start + blk.size - 1) ⟨by omega, by omega⟩
    exact markAllocated_eq_some m (by omega)

theorem markAll_eq_some (m : BitmapMemoryManager) (marks : List Block)
    (h : ∀ blk ∈ marks, ∀ f ∈ blk.frames, f < kFrameCount) :
    ∃ m', m.markAll marks = some m' ∧ m'.rangeBegin = m.rangeBegin ∧
      m'.rangeEnd = m.rangeEnd ∧
      ∀ f, m'.bit f = true ↔ m.bit f = true ∨ f ∈ framesOf marks := by
  induction marks generalizing m with
  | nil => exact ⟨m, rfl, rfl, rfl, fun f => by simp [framesOf]⟩
  | cons blk marks ih =>
    obtain ⟨m₁, hm₁, hset⟩ := markBlock_eq_some m (h blk List.mem_cons_self)
    obtain ⟨m', hm', hb, he, hbit⟩ := ih m₁ (fun x hx => h x (List.mem_cons_of_mem _ hx))
    refine ⟨m', ?_, by rw [hb, hset.rangeBegin], by rw [he, hset.rangeEnd], fun f => ?_⟩
    · rw [markAll, List.foldlM_cons, hm₁]
      exact hm'
    · rw [hbit, hset.bit_true, Block.mem_range', or_assoc]
      simp only [framesOf, Set.mem_ofPred_eq, List.mem_cons, exists_eq_or_imp]

theorem setUp_eq_some {marks : List Block} {b e : ℕ}
    (h : ∀ blk ∈ marks, ∀ f ∈ blk.frames, f < kFrameCount) :
    ∃ m, setUp marks b e = some m ∧ m.rangeBegin = b ∧ m.rangeEnd = e ∧
      ∀ f, m.bit f = true ↔ f ∈ framesOf marks := by
  obtain ⟨m, hm, _, _, hbit⟩ := markAll_eq_some new marks h
  refine ⟨m.setMemoryRange b e, by rw [setUp, hm]; rfl, rfl, rfl, fun f => ?_⟩
  rw [bit_setMemoryRange, hbit, bit_new]
  simp

/-! ## The refinement -/

/-- The manager searches `[b, e)` and its bitmap is the set of cells in use. -/
structure Represents (marks : List Block) (b e : ℕ) (m : BitmapMemoryManager)
    (live : List Block) : Prop where
  rangeBegin : m.rangeBegin = b
  rangeEnd : m.rangeEnd = e
  bit : ∀ f, m.bit f = true ↔ InUse Block.frames (framesOf marks) live f

section Runs

variable {marks : List Block} {b e : ℕ}

/-- The region allocator that the frame allocator implements. -/
def frameRegions (marks : List Block) (b e : ℕ) : TransitionSystem (List Block) :=
  RegionAllocator.system Block.frames (frameRange b e) (framesOf marks)

/-- A block that `Allocate` hands out lies in the range and is not in use. -/
theorem Represents.allocate {m m' : BitmapMemoryManager} {live : List Block} {n s : ℕ}
    (h : Represents marks b e m live) (hfit : m.Fits n s)
    (hset : Assigned m (List.range' s n) true m') :
    (⟨s, n⟩ : Block).frames ⊆ frameRange b e ∧
      (∀ f ∈ (⟨s, n⟩ : Block).frames, ¬ InUse Block.frames (framesOf marks) live f) ∧
      Represents marks b e m' (⟨s, n⟩ :: live) := by
  obtain ⟨hlow, hhigh, hclear⟩ := hfit
  rw [h.rangeBegin] at hlow
  rw [h.rangeEnd] at hhigh
  refine ⟨fun f hf => ⟨?_, ?_⟩, fun f hf huse => ?_, ?_⟩
  · have := hf.1
    simp only at this
    omega
  · have := hf.2
    simp only at this
    omega
  · have := hclear f hf.1 hf.2
    rw [(h.bit f).mpr huse] at this
    cases this
  · refine ⟨by rw [hset.rangeBegin, h.rangeBegin], by rw [hset.rangeEnd, h.rangeEnd],
      fun f => ?_⟩
    rw [hset.bit_true, inUse_cons, ← h.bit f, or_comm]
    exact or_congr_left (@Block.mem_range' ⟨s, n⟩ _)

/-- A block taken back is no longer in use. -/
theorem Represents.free {m m' : BitmapMemoryManager} {live : List Block} {blk : Block}
    (h : Represents marks b e m live)
    (hsep : Separated Block.frames (frameRange b e) (framesOf marks) live)
    (hblk : blk ∈ live) (hset : Assigned m (List.range' blk.start blk.size) false m') :
    Represents marks b e m' (live.erase blk) := by
  refine ⟨by rw [hset.rangeBegin, h.rangeBegin], by rw [hset.rangeEnd, h.rangeEnd],
    fun f => ?_⟩
  rw [hset.bit_false, inUse_erase hsep hblk, ← h.bit f, Block.mem_range']

/-- A nonempty block inside the range ends at or before `e`. -/
theorem frames_subset_range {blk : Block} (hpos : 0 < blk.size)
    (h : blk.frames ⊆ frameRange b e) : b ≤ blk.start ∧ blk.start + blk.size ≤ e := by
  have hfirst : blk.start ∈ frameRange b e := h ⟨le_refl _, by omega⟩
  have hlast : blk.start + blk.size - 1 ∈ frameRange b e := h ⟨by omega, by omega⟩
  have := hfirst.1
  have := hlast.2
  omega

/-- The relation between a state of the frame allocator and one of the region allocator:
the blocks are the same, none is empty, and the bitmap records what is in use. -/
def Implements (marks : List Block) (b e : ℕ) (st : AllocatorState) (live : List Block) :
    Prop :=
  st.live = live ∧ (∀ blk ∈ live, 0 < blk.size) ∧ Represents marks b e st.manager live

theorem frameAllocator_simulates (hmarks : ∀ blk ∈ marks, ∀ f ∈ blk.frames, f < kFrameCount)
    (he : e ≤ kFrameCount) :
    TransitionSystem.Simulates (frameAllocator marks b e) (frameRegions marks b e)
      (Implements marks b e) where
  init st hst := by
    obtain ⟨m, hm, hb, hend, hbit⟩ := setUp_eq_some (b := b) (e := e) hmarks
    have hman : st.manager = m := Option.some.inj (hst.2.symm.trans hm)
    refine ⟨[], rfl, hst.1, fun blk hblk => absurd hblk List.not_mem_nil, ?_⟩
    rw [hman]
    refine ⟨hb, hend, fun f => ?_⟩
    rw [hbit]
    simp [InUse]
  step st st' live hlive hrel hstep := by
    obtain ⟨hsame, hpos, hrep⟩ := hrel
    have hend : st.manager.rangeEnd ≤ kFrameCount := by rw [hrep.rangeEnd]; exact he
    cases hstep with
    | @allocate n s m hn hcall =>
      right
      rcases allocate_spec st.manager hend hn with ⟨s', m', hcall', hleast, hset⟩ | ⟨_, hcall'⟩
      · rw [hcall] at hcall'
        cases hcall'
        obtain ⟨hsub, hfree, hrep'⟩ := hrep.allocate hleast.1 hset
        refine ⟨⟨s, n⟩ :: live, .alloc hsub hfree, by rw [hsame], ?_, hrep'⟩
        intro blk hblk
        rcases List.mem_cons.mp hblk with heq | hmem
        · rw [heq]; exact hn
        · exact hpos blk hmem
      · rw [hcall] at hcall'
        cases hcall'
    | refuse hn hcall hfail =>
      -- a request that is refused changes nothing: the region allocator takes no step
      left
      rcases allocate_spec st.manager hend hn with ⟨s', m', hcall', _, _⟩ | ⟨_, hcall'⟩
      · rw [hcall] at hcall'
        cases hcall'
        cases hfail
      · rw [hcall] at hcall'
        cases hcall'
        exact ⟨hsame, hpos, hrep⟩
    | @free blk err m hblk hcall =>
      right
      rw [hsame] at hblk
      have hsep := separated_of_reachable hlive
      have hin := frames_subset_range (hpos blk hblk) (hsep.subset blk hblk)
      have hfits : blk.start + blk.size ≤ kFrameCount := le_trans hin.2 he
      obtain ⟨m', hcall', hset⟩ := free_eq_some st.manager hfits
      rw [hcall] at hcall'
      cases hcall'
      refine ⟨live.erase blk, .free hblk, by rw [hsame], ?_, hrep.free hsep hblk hset⟩
      intro x hx
      exact hpos x (List.mem_of_mem_erase hx)

/-- Every state a run reaches: its bitmap records the marked frames and the live blocks,
which are separated and not empty. -/
theorem reachable_represents (hmarks : ∀ blk ∈ marks, ∀ f ∈ blk.frames, f < kFrameCount)
    (he : e ≤ kFrameCount) {st : AllocatorState}
    (h : (frameAllocator marks b e).Reachable st) :
    Represents marks b e st.manager st.live ∧ (∀ blk ∈ st.live, 0 < blk.size) ∧
      Separated Block.frames (frameRange b e) (framesOf marks) st.live := by
  obtain ⟨live, hlive, hsame, hpos, hrep⟩ := (frameAllocator_simulates hmarks he).reachable h
  rw [hsame]
  exact ⟨hrep, hpos, separated_of_reachable hlive⟩

/-- Freeing every live block leaves the marked frames only. -/
theorem freeAll_represents (he : e ≤ kFrameCount) {m : BitmapMemoryManager}
    {live : List Block} (hrep : Represents marks b e m live)
    (hpos : ∀ blk ∈ live, 0 < blk.size)
    (hsep : Separated Block.frames (frameRange b e) (framesOf marks) live) :
    ∃ m', m.freeAll live = some m' ∧ Represents marks b e m' [] := by
  induction live generalizing m with
  | nil => exact ⟨m, rfl, hrep⟩
  | cons blk live ih =>
    have hin := frames_subset_range (hpos blk List.mem_cons_self)
      (hsep.subset blk List.mem_cons_self)
    have hfits : blk.start + blk.size ≤ kFrameCount := le_trans hin.2 he
    obtain ⟨m₁, hm₁, hset⟩ := free_eq_some m hfits
    have hrep₁ := hrep.free hsep List.mem_cons_self hset
    rw [List.erase_cons_head] at hrep₁
    obtain ⟨m', hm', hrep'⟩ := ih hrep₁ (fun x hx => hpos x (List.mem_cons_of_mem _ hx))
      (hsep.sublist (List.sublist_cons_self blk live))
    refine ⟨m', ?_, hrep'⟩
    rw [freeAll, List.foldlM_cons, hm₁]
    exact hm'

/-- Managers that represent the same blocks have the same words in `alloc_map_`. -/
theorem Represents.allocMap_eq {m m' : BitmapMemoryManager} {live : List Block}
    (h : Represents marks b e m live) (h' : Represents marks b e m' live) :
    m.allocMap = m'.allocMap := by
  apply PackedBitmap.ext_test
  intro k _
  rw [Bool.eq_iff_iff]
  exact (h.bit k).trans (h'.bit k).symm

/-! ## The runs -/

/-- In every state a run reaches, the live blocks are disjoint, inside `[b, e)` and off the
frames marked at the start, the bitmap is exactly those frames and the live blocks, no call
leaves `alloc_map_`, and freeing the live blocks in any order restores the words the run
started with. -/
theorem frameAllocator_runs (hmarks : ∀ blk ∈ marks, ∀ f ∈ blk.frames, f < kFrameCount)
    (he : e ≤ kFrameCount) {st : AllocatorState}
    (h : (frameAllocator marks b e).Reachable st) :
    (st.live.Pairwise fun x y => Disjoint x.frames y.frames) ∧
    (∀ blk ∈ st.live, b ≤ blk.start ∧ blk.start + blk.size ≤ e ∧
      Disjoint blk.frames (framesOf marks)) ∧
    (∀ f < kFrameCount, st.manager.bit f = true ↔
      f ∈ framesOf marks ∨ ∃ blk ∈ st.live, f ∈ blk.frames) ∧
    (∀ n, 0 < n → ∃ r, st.manager.allocate n = some r) ∧
    (∀ blk ∈ st.live, ∃ r, st.manager.free blk.start blk.size = some r) ∧
    (∀ order, order.Perm st.live → ∃ m m₀, st.manager.freeAll order = some m ∧
      setUp marks b e = some m₀ ∧ m.allocMap = m₀.allocMap) := by
  obtain ⟨hrep, hpos, hsep⟩ := reachable_represents hmarks he h
  have hinside : ∀ blk ∈ st.live, b ≤ blk.start ∧ blk.start + blk.size ≤ e :=
    fun blk hblk => frames_subset_range (hpos blk hblk) (hsep.subset blk hblk)
  refine ⟨hsep.pairwise, ?_, fun f _ => hrep.bit f, ?_, ?_, ?_⟩
  · intro blk hblk
    exact ⟨(hinside blk hblk).1, (hinside blk hblk).2, hsep.reserved blk hblk⟩
  · intro n hn
    have hend : st.manager.rangeEnd ≤ kFrameCount := by rw [hrep.rangeEnd]; exact he
    rcases allocate_spec st.manager hend hn with ⟨s, m, hcall, _⟩ | ⟨_, hcall⟩
    · exact ⟨_, hcall⟩
    · exact ⟨_, hcall⟩
  · intro blk hblk
    have hfits : blk.start + blk.size ≤ kFrameCount := le_trans (hinside blk hblk).2 he
    obtain ⟨m, hcall, _⟩ := free_eq_some st.manager hfits
    exact ⟨_, hcall⟩
  · intro order hperm
    have hrep' : Represents marks b e st.manager order :=
      ⟨hrep.rangeBegin, hrep.rangeEnd, fun f => by rw [hrep.bit, inUse_perm hperm]⟩
    have hpos' : ∀ blk ∈ order, 0 < blk.size := fun blk hblk =>
      hpos blk (hperm.mem_iff.mp hblk)
    obtain ⟨m, hm, hrepm⟩ := freeAll_represents he hrep' hpos' (hsep.perm hperm.symm)
    -- both managers now represent the marked frames and no block
    obtain ⟨m₀, hm₀, hb, hend, hbit⟩ := setUp_eq_some (b := b) (e := e) hmarks
    refine ⟨m, m₀, hm, hm₀, hrepm.allocMap_eq ⟨hb, hend, fun f => ?_⟩⟩
    rw [hbit]
    simp [InUse]

end Runs

/-- A run with frame 0 marked and the range `[1, 8)`, after a request for two frames. -/
theorem frameAllocator_runs_two_frames :
    ∃ st, (frameAllocator [⟨0, 1⟩] 1 8).Reachable st ∧ st.live = [⟨1, 2⟩] ∧
      ∀ f < kFrameCount, st.manager.bit f = true ↔
        f ∈ framesOf [⟨0, 1⟩] ∨ ∃ blk ∈ st.live, f ∈ blk.frames := by
  have hmarks : ∀ blk ∈ [(⟨0, 1⟩ : Block)], ∀ f ∈ blk.frames, f < kFrameCount := by
    intro blk hblk f hf
    rw [List.mem_singleton.mp hblk] at hf
    exact lt_of_lt_of_le hf.2 (by decide)
  have he : 8 ≤ kFrameCount := by decide
  obtain ⟨m, hm, hb, hend, hbit⟩ := setUp_eq_some (b := 1) (e := 8) hmarks
  have hstart : (frameAllocator [⟨0, 1⟩] 1 8).Reachable ⟨m, []⟩ := .start ⟨rfl, hm⟩
  -- the only mark is at frame 0, outside the range
  have hfits : m.Fits 2 1 := by
    refine ⟨by omega, by omega, fun k h1 _ => ?_⟩
    rw [Bool.eq_false_iff, Ne, hbit]
    intro hmark
    obtain ⟨blk, hblk, hk⟩ := hmark
    rw [List.mem_singleton.mp hblk] at hk
    have := hk.2
    simp only at this
    omega
  rcases allocate_spec m (by omega) (show 0 < 2 by omega) with
    ⟨s, m', hcall, hleast, _⟩ | ⟨hnone, _⟩
  · -- the search is first-fit, so the block is the one at frame 1
    have hs : s = 1 := by
      have hle := hleast.2 hfits
      have hge := hleast.1.1
      omega
    rw [hs] at hcall
    have hreach := hstart.next (.allocate (by omega) hcall)
    exact ⟨_, hreach, rfl, (frameAllocator_runs hmarks he hreach).2.2.1⟩
  · exact absurd hfits (hnone 1)

end TommyOS
