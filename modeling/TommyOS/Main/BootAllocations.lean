import TommyOS.Main.BootScanTheorems
import TommyOS.MemoryManager.FrameAllocatorRuns

/-!
# Allocation after the boot scan

A boot run is the scan of a memory map followed by a list of `Allocate` calls (the first of
which, in the kernel, is the one of `InitializeHeap`). `usableFrames` is read off the memory
map alone; `handedOut_iff` says that these are exactly the frames that some run hands out.
A run that leaves `alloc_map_` is `none`.
-/

namespace TommyOS

open BitmapMemoryManager

/-- One `Allocate` call of a client that keeps the blocks it gets, latest first. -/
def allocateNext (run : BitmapMemoryManager × List Block) (numFrames : ℕ) :
    Option (BitmapMemoryManager × List Block) :=
  (run.1.allocate numFrames).map fun (result, m) =>
    if result.error.failed then (m, run.2) else (m, ⟨result.value, numFrames⟩ :: run.2)

/-- A sequence of `Allocate` calls. -/
def allocateAll (m : BitmapMemoryManager) (sizes : List ℕ) :
    Option (BitmapMemoryManager × List Block) :=
  sizes.foldlM allocateNext (m, [])

/-- The boot scan followed by a sequence of `Allocate` calls. -/
def bootRun (descriptors : List MemoryDescriptor) (sizes : List ℕ) :
    Option (BitmapMemoryManager × List Block) :=
  (scanMemoryMap descriptors).bind fun m => allocateAll m sizes

/-- The frames a memory map leaves to the allocator: from frame 1 to the end of the last
available region, without those the scan marks. -/
def usableFrames (descriptors : List MemoryDescriptor) : Set ℕ :=
  {f | 1 ≤ f ∧ f < lastAvailableEnd descriptors ∧ f ∉ scanMarks descriptors}

/-- The frames that `Allocate` can return in its present state. -/
def clearFrames (m : BitmapMemoryManager) : Set ℕ :=
  {f | m.rangeBegin ≤ f ∧ f < m.rangeEnd ∧ m.bit f = false}

/-! ## Inside the bitmap -/

theorem allocateNext_of_success {m m' : BitmapMemoryManager} {n s : ℕ}
    (hcall : m.allocate n = some (⟨s, .kSuccess⟩, m')) (blocks : List Block) :
    allocateNext (m, blocks) n = some (m', ⟨s, n⟩ :: blocks) := by
  unfold allocateNext
  simp only [hcall, Option.map_some]
  rfl

/-- One call: it stays inside `alloc_map_`, and a block it adds consists of frames that were
clear. -/
theorem allocateNext_spec {m : BitmapMemoryManager} (hend : m.rangeEnd ≤ kFrameCount)
    (blocks : List Block) (n : ℕ) :
    ∃ m' blocks', allocateNext (m, blocks) n = some (m', blocks') ∧
      m'.rangeEnd = m.rangeEnd ∧ clearFrames m' ⊆ clearFrames m ∧
      ∀ blk ∈ blocks', blk ∈ blocks ∨ blk.frames ⊆ clearFrames m := by
  by_cases hn : n = 0
  -- a request for no frame: a block without frames, wherever the range begins
  · refine ⟨m, ⟨m.rangeBegin, n⟩ :: blocks, ?_, rfl, Set.Subset.refl _, fun blk hblk => ?_⟩
    · rw [hn]
      exact allocateNext_of_success (allocate_zero m) blocks
    · rcases List.mem_cons.mp hblk with heq | hmem
      · right
        rw [heq]
        intro f hf
        have h1 := hf.1
        have h2 := hf.2
        simp only at h1 h2
        omega
      · exact Or.inl hmem
  · rcases allocate_spec m hend (Nat.pos_of_ne_zero hn) with
      ⟨s, m', hcall, hleast, hset⟩ | ⟨_, hcall⟩
    · refine ⟨m', ⟨s, n⟩ :: blocks, allocateNext_of_success hcall blocks, hset.rangeEnd,
        fun f hf => ?_, fun blk hblk => ?_⟩
      · obtain ⟨hlow, hhigh, hclear⟩ := hf
        refine ⟨hset.rangeBegin ▸ hlow, hset.rangeEnd ▸ hhigh, ?_⟩
        rw [Bool.eq_false_iff] at hclear ⊢
        exact fun hbit => hclear ((hset.bit_true f).mpr (Or.inl hbit))
      · rcases List.mem_cons.mp hblk with heq | hmem
        · right
          rw [heq]
          intro f hf
          obtain ⟨hlow, hhigh, hclear⟩ := hleast.1
          exact ⟨le_trans hlow hf.1, lt_of_lt_of_le hf.2 hhigh, hclear f hf.1 hf.2⟩
        · exact Or.inl hmem
    · refine ⟨m, blocks, ?_, rfl, Set.Subset.refl _, fun blk hblk => Or.inl hblk⟩
      unfold allocateNext
      simp only [hcall, Option.map_some]
      rfl

/-- A sequence of calls stays inside `alloc_map_`, and every block it collects consists of
frames that were clear at its start. -/
theorem allocateAll_spec {m : BitmapMemoryManager} (hend : m.rangeEnd ≤ kFrameCount)
    (sizes : List ℕ) :
    ∃ m' blocks, allocateAll m sizes = some (m', blocks) ∧
      ∀ blk ∈ blocks, blk.frames ⊆ clearFrames m := by
  -- along the run the clear frames stay a part of those at its start
  have hrun : ∀ (sizes : List ℕ) (m₁ : BitmapMemoryManager) (blocks : List Block),
      m₁.rangeEnd ≤ kFrameCount → clearFrames m₁ ⊆ clearFrames m →
      (∀ blk ∈ blocks, blk.frames ⊆ clearFrames m) →
      ∃ m' blocks', sizes.foldlM allocateNext (m₁, blocks) = some (m', blocks') ∧
        ∀ blk ∈ blocks', blk.frames ⊆ clearFrames m := by
    intro sizes
    induction sizes with
    | nil =>
      intro m₁ blocks _ _ hblocks
      exact ⟨m₁, blocks, rfl, hblocks⟩
    | cons n sizes ih =>
      intro m₁ blocks hend₁ hsub hblocks
      obtain ⟨m₂, blocks₂, hcall, hend₂, hsub₂, hnew⟩ := allocateNext_spec hend₁ blocks n
      rw [List.foldlM_cons, hcall]
      apply ih m₂ blocks₂ (by omega) (hsub₂.trans hsub)
      intro blk hblk
      rcases hnew blk hblk with hold | hclear
      · exact hblocks blk hold
      · exact hclear.trans hsub
  exact hrun sizes m [] hend (Set.Subset.refl _) fun blk hblk => absurd hblk List.not_mem_nil

/-- Marking frames takes exactly these out of the clear ones. -/
theorem mem_clearFrames_of_assigned {m m' : BitmapMemoryManager} {frames : List ℕ}
    (hset : Assigned m frames true m') {f : ℕ} :
    f ∈ clearFrames m' ↔ f ∈ clearFrames m ∧ f ∉ frames := by
  simp only [clearFrames, Set.mem_ofPred_eq, hset.rangeBegin, hset.rangeEnd, Bool.eq_false_iff,
    Ne, hset.bit_true, not_or, and_assoc]

/-- A run of frames fits where all of them are clear. -/
theorem fits_iff {m : BitmapMemoryManager} {n s : ℕ} (hn : 0 < n) :
    m.Fits n s ↔ (Block.mk s n).frames ⊆ clearFrames m := by
  constructor
  · intro h f hf
    obtain ⟨hbegin, hend, hclear⟩ := h
    exact ⟨le_trans hbegin hf.1, lt_of_lt_of_le hf.2 hend, hclear f hf.1 hf.2⟩
  · intro h
    have hfirst := h (show s ∈ (Block.mk s n).frames from ⟨le_refl s, by simp only; omega⟩)
    have hlast := h (show s + n - 1 ∈ (Block.mk s n).frames from
      ⟨by simp only; omega, by simp only; omega⟩)
    have hend := hlast.2.1
    exact ⟨hfirst.1, by omega, fun f h1 h2 => (h ⟨h1, h2⟩).2.2⟩

/-- A request for one frame takes the least clear frame. -/
theorem allocate_one {m : BitmapMemoryManager} (hend : m.rangeEnd ≤ kFrameCount) {f : ℕ}
    (hf : f ∈ clearFrames m) :
    ∃ s m', m.allocate 1 = some (⟨s, .kSuccess⟩, m') ∧ IsLeast (clearFrames m) s ∧
      ∀ g, g ∈ clearFrames m' ↔ g ∈ clearFrames m ∧ g ≠ s := by
  have hfits : ∀ g, m.Fits 1 g ↔ g ∈ clearFrames m := by
    intro g
    have hone : (Block.mk g 1).frames = {g} := Set.ext fun k => by
      rw [Set.mem_singleton_iff]
      show g ≤ k ∧ k < g + 1 ↔ k = g
      omega
    rw [fits_iff Nat.one_pos, hone, Set.singleton_subset_iff]
  rcases allocate_spec m hend Nat.one_pos with ⟨s, m', hcall, hleast, hset⟩ | ⟨hnone, _⟩
  · simp only [hfits] at hleast
    refine ⟨s, m', hcall, hleast, fun g => ?_⟩
    rw [mem_clearFrames_of_assigned hset, List.range'_one, List.mem_singleton]
  · exact absurd ((hfits f).mpr hf) (hnone f)

/-- Asking for single frames often enough hands out any frame that is clear. -/
theorem allocateAll_reaches {m : BitmapMemoryManager} (hend : m.rangeEnd ≤ kFrameCount)
    {f : ℕ} (hf : f ∈ clearFrames m) :
    ∃ k m' blocks, allocateAll m (List.replicate k 1) = some (m', blocks) ∧
      ∃ blk ∈ blocks, f ∈ blk.frames := by
  -- induction on a bound `d` for the distance to `f` from `t`, below which no frame is clear
  have hrun : ∀ (d t : ℕ) (m : BitmapMemoryManager) (blocks : List Block), f < t + d →
      m.rangeEnd ≤ kFrameCount → f ∈ clearFrames m → (∀ g ∈ clearFrames m, t ≤ g) →
      ∃ k m' blocks',
        (List.replicate k 1).foldlM allocateNext (m, blocks) = some (m', blocks') ∧
        ∃ blk ∈ blocks', f ∈ blk.frames := by
    intro d
    induction d with
    | zero =>
      intro t m _ hd _ hf hbelow
      have := hbelow f hf
      omega
    | succ d ih =>
      intro t m blocks hd hend hf hbelow
      obtain ⟨s, m', hcall, hleast, hclear⟩ := allocate_one hend hf
      have hnext := allocateNext_of_success hcall blocks
      by_cases hsame : s = f
      · refine ⟨1, m', ⟨s, 1⟩ :: blocks, ?_, ⟨s, 1⟩, List.mem_cons_self, ?_⟩
        · rw [List.replicate_one, List.foldlM_cons, hnext]
          rfl
        · rw [hsame]
          exact ⟨le_refl f, Nat.lt_succ_self f⟩
      · -- another frame, in front of `f`: the search for `f` goes on behind it
        have hts := hbelow s hleast.1
        have hend' : m'.rangeEnd ≤ kFrameCount := by
          obtain ⟨m₁, blocks₁, hcall₁, hend₁, _⟩ := allocateNext_spec hend blocks 1
          rw [hnext] at hcall₁
          cases hcall₁
          omega
        have hbelow' : ∀ g ∈ clearFrames m', s + 1 ≤ g := by
          intro g hg
          obtain ⟨hg', hne⟩ := (hclear g).mp hg
          have := hleast.2 hg'
          omega
        obtain ⟨k, m'', blocks', hrun, hblk⟩ := ih (s + 1) m' (⟨s, 1⟩ :: blocks) (by omega) hend'
          ((hclear f).mpr ⟨hf, Ne.symm hsame⟩) hbelow'
        refine ⟨k + 1, m'', blocks', ?_, hblk⟩
        rw [List.replicate_succ, List.foldlM_cons, hnext]
        exact hrun
  exact hrun (f + 1) 0 m [] (by omega) hend hf fun g _ => Nat.zero_le g

/-! ## Leaving the bitmap -/

/-- A range that reaches past the bitmap: a request for as many frames as the bitmap has
bits looks past its end. -/
theorem allocate_kFrameCount_eq_none {m : BitmapMemoryManager}
    (hbegin : 1 ≤ m.rangeBegin) (hle : m.rangeBegin ≤ kFrameCount)
    (hend : kFrameCount < m.rangeEnd) : m.allocate kFrameCount = none := by
  have hfrom : ∀ s, 1 ≤ s → s ≤ kFrameCount → m.allocateFrom kFrameCount s = none := by
    intro s
    induction s using allocateFrom.induct m kFrameCount with
    | case1 s hprobe =>
      intro _ _
      rw [allocateFrom, hprobe]
    | case2 s hprobe =>
      intro h1 h2
      have hspec := probe_spec m kFrameCount s 0
      rw [hprobe] at hspec
      -- the loop passed every frame up to the end of the range, some of them without a bit
      obtain ⟨j, _, _, hpass, hge⟩ := hspec
      have hlast := (hpass (j - 1) (by omega) (by omega)).2.1
      omega
    | case3 s hprobe =>
      intro h1 h2
      have hspec := probe_spec m kFrameCount s 0
      rw [hprobe] at hspec
      -- a block that fits from frame 1 on would end past the bitmap
      have hpos : 0 < kFrameCount := by decide
      have hlast := (hspec (kFrameCount - 1) (by omega) (by omega)).2.1
      omega
    | case4 s j hprobe ih =>
      intro h1 h2
      have hspec := probe_spec m kFrameCount s 0
      rw [hprobe] at hspec
      obtain ⟨_, _, _, _, hlt, _⟩ := hspec
      rw [allocateFrom, hprobe]
      exact ih (by omega) (by omega)
  exact hfrom m.rangeBegin hbegin hle

/-- The condition on a memory map for the scan and every later search to stay inside
`alloc_map_`. -/
def BitmapCovers (descriptors : List MemoryDescriptor) : Prop :=
  MarksInBitmap descriptors ∧ lastAvailableEnd descriptors ≤ kFrameCount

theorem bitmapCovers_of_belowLimit {map : UefiMemoryMap} (hlimit : BelowLimit map.descriptors) :
    BitmapCovers map.descriptors :=
  ⟨marksInBitmap_of_belowLimit hlimit,
    lastAvailableEnd_le fun _ hdesc => endFrame_le_of_belowLimit hlimit hdesc⟩

/-- After the scan the clear frames are the usable ones. -/
theorem scanMemoryMap_clearFrames {map : UefiMemoryMap} (hin : MarksInBitmap map.descriptors) :
    ∃ m, scanMemoryMap map.descriptors = some m ∧ m.rangeBegin = 1 ∧
      m.rangeEnd = lastAvailableEnd map.descriptors ∧
      clearFrames m = usableFrames map.descriptors := by
  obtain ⟨m, hm, hbegin, hend, hbit⟩ := scanMemoryMap_eq_some map.wellFormed hin
  refine ⟨m, hm, hbegin, hend, Set.ext fun f => ?_⟩
  simp only [clearFrames, usableFrames, Set.mem_ofPred_eq, hbegin, hend, Bool.eq_false_iff, Ne,
    hbit]

/-- A covered map: every boot run stays inside `alloc_map_` and hands out usable frames. -/
theorem bootRun_eq_some {map : UefiMemoryMap} (hcov : BitmapCovers map.descriptors)
    (sizes : List ℕ) :
    ∃ m blocks, bootRun map.descriptors sizes = some (m, blocks) ∧
      ∀ blk ∈ blocks, blk.frames ⊆ usableFrames map.descriptors := by
  obtain ⟨m, hm, _, hend, hclear⟩ := scanMemoryMap_clearFrames hcov.1
  unfold bootRun
  rw [hm, ← hclear]
  exact allocateAll_spec (by rw [hend]; exact hcov.2) sizes

/-- Any other map has a run that leaves it: the scan does, or a request for as many frames
as the bitmap has bits. -/
theorem bitmapCovers_of_bootRun {map : UefiMemoryMap}
    (hall : ∀ sizes, ∃ r, bootRun map.descriptors sizes = some r) :
    BitmapCovers map.descriptors := by
  by_cases hin : MarksInBitmap map.descriptors
  · obtain ⟨m, hm, hbegin, hend, _⟩ := scanMemoryMap_clearFrames hin
    refine ⟨hin, ?_⟩
    by_contra hlt
    -- the scan stays inside, but leaves a range that reaches past the bitmap
    have hpos : 1 ≤ kFrameCount := by decide
    have hnone := allocate_kFrameCount_eq_none (m := m) (by omega) (by omega) (by omega)
    have hnext : allocateNext (m, []) kFrameCount = none := by
      unfold allocateNext
      simp only [hnone, Option.map_none]
    obtain ⟨r, hr⟩ := hall [kFrameCount]
    rw [bootRun, hm, Option.bind_some, allocateAll, List.foldlM_cons, hnext] at hr
    cases hr
  · obtain ⟨r, hr⟩ := hall []
    rw [bootRun, scanMemoryMap_eq_none map.wellFormed hin] at hr
    cases hr

/-- No boot run leaves `alloc_map_` exactly when the bitmap covers the map. -/
theorem bootRun_defined_iff (map : UefiMemoryMap) :
    (∀ sizes, ∃ r, bootRun map.descriptors sizes = some r) ↔ BitmapCovers map.descriptors := by
  refine ⟨bitmapCovers_of_bootRun, fun hcov sizes => ?_⟩
  obtain ⟨m, blocks, hrun, _⟩ := bootRun_eq_some hcov sizes
  exact ⟨_, hrun⟩

/-- Conventional memory, and the region below 1 TiB that processors reserve. -/
def highReservedMap : UefiMemoryMap where
  descriptors := [⟨7, 0, 160⟩, ⟨0, 0xfd00000000, 0x300000⟩]
  wellFormed := by decide

theorem bootRun_highReservedMap_leaves_allocMap :
    ¬ ∀ sizes, ∃ r, bootRun highReservedMap.descriptors sizes = some r := by
  intro hall
  have hstart : ¬ MarksInBitmap highReservedMap.descriptors := by
    intro hin
    have hgap := hin.1 [⟨7, 0, 160⟩] ⟨0, 0xfd00000000, 0x300000⟩ (List.prefix_refl _)
    exact absurd hgap (by decide)
  obtain ⟨r, hr⟩ := hall []
  rw [bootRun, scanMemoryMap_eq_none highReservedMap.wellFormed hstart] at hr
  cases hr

/-! ## The frames that are handed out -/

/-- The frames that some boot run hands out are the usable ones. -/
theorem handedOut_iff {map : UefiMemoryMap} (hcov : BitmapCovers map.descriptors) (f : ℕ) :
    (∃ sizes m blocks, bootRun map.descriptors sizes = some (m, blocks) ∧
      ∃ blk ∈ blocks, f ∈ blk.frames) ↔ f ∈ usableFrames map.descriptors := by
  constructor
  · intro h
    obtain ⟨sizes, m, blocks, hrun, blk, hblk, hf⟩ := h
    obtain ⟨m', blocks', hrun', hsub⟩ := bootRun_eq_some hcov sizes
    rw [hrun'] at hrun
    cases hrun
    exact hsub blk hblk hf
  · intro hf
    obtain ⟨m, hm, _, hend, hclear⟩ := scanMemoryMap_clearFrames hcov.1
    rw [← hclear] at hf
    obtain ⟨k, m', blocks, hrun, hblk⟩ := allocateAll_reaches (by rw [hend]; exact hcov.2) hf
    refine ⟨List.replicate k 1, m', blocks, ?_, hblk⟩
    rw [bootRun, hm]
    exact hrun

/-- In an ascending map every frame of an available region is usable, but for frame 0. -/
theorem mem_usableFrames_of_ascending {descriptors : List MemoryDescriptor}
    (hasc : Ascending descriptors) {f : ℕ} :
    f ∈ usableFrames descriptors ↔
      1 ≤ f ∧ ∃ desc ∈ descriptors, isAvailable desc.type = true ∧ f ∈ desc.frames := by
  constructor
  · intro hf
    exact ⟨hf.1, available_of_not_marked hf.2.1 hf.2.2⟩
  · intro h
    obtain ⟨hpos, desc, hdesc, havail, hf⟩ := h
    exact ⟨hpos, not_marked_of_available hasc hdesc havail hf⟩

/-- The first call, which is the one of `InitializeHeap`, gets the first run of usable
frames that is long enough. -/
theorem bootRun_first {map : UefiMemoryMap} (hcov : BitmapCovers map.descriptors) {n s : ℕ}
    (hn : 0 < n)
    (hs : IsLeast {s | (Block.mk s n).frames ⊆ usableFrames map.descriptors} s) :
    ∃ m, bootRun map.descriptors [n] = some (m, [⟨s, n⟩]) := by
  obtain ⟨m, hm, _, hend, hclear⟩ := scanMemoryMap_clearFrames hcov.1
  have hfits : {s | m.Fits n s} = {s | (Block.mk s n).frames ⊆ usableFrames map.descriptors} :=
    Set.ext fun k => by rw [Set.mem_ofPred_eq, Set.mem_ofPred_eq, fits_iff hn, hclear]
  rw [← hfits] at hs
  rcases allocate_spec m (by rw [hend]; exact hcov.2) hn with
    ⟨s', m', hcall, hleast, _⟩ | ⟨hnone, _⟩
  · rw [hleast.unique hs] at hcall
    refine ⟨m', ?_⟩
    rw [bootRun, hm, Option.bind_some, allocateAll, List.foldlM_cons,
      allocateNext_of_success hcall]
    rfl
  · exact absurd hs.1 (hnone s)

/-- When the usable frames are a low region that is too small for the request and one of
its size above a gap, the request gets the latter. -/
theorem bootRun_first_of_low_region {map : UefiMemoryMap} (hcov : BitmapCovers map.descriptors)
    {n a b : ℕ} (han : a ≤ n) (hab : a < b) (hn : 0 < n)
    (husable : ∀ f, f ∈ usableFrames map.descriptors ↔ 1 ≤ f ∧ (f < a ∨ (b ≤ f ∧ f < b + n))) :
    ∃ m, bootRun map.descriptors [n] = some (m, [⟨b, n⟩]) := by
  apply bootRun_first hcov hn
  constructor
  · intro f hf
    obtain ⟨hlow, hhigh⟩ := hf
    simp only at hlow hhigh
    rw [husable]
    omega
  · intro s hs
    -- from a lower start on, the block would run into the gap at frame `a`
    by_contra hlt
    have hfirst := hs (show s ∈ (Block.mk s n).frames from ⟨le_refl s, by simp only; omega⟩)
    rw [husable] at hfirst
    have hgap := hs (show a ∈ (Block.mk s n).frames from ⟨by simp only; omega, by simp only; omega⟩)
    rw [husable] at hgap
    omega

end TommyOS
