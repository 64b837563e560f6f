import TommyOS.Main.BootAllocations
import TommyOS.Paging.PagingTheorems

/-!
# Allocated blocks and the identity map

The allocator accepts frames up to 128 GiB, the page tables cover 64 GiB. Which memory maps
let every block of every boot run lie in the mapped half.
-/

namespace TommyOS

open BitmapMemoryManager

/-- The physical addresses of the bytes of a block. -/
def Block.bytes (blk : Block) : Set ℕ :=
  {v | blk.start * kBytesPerFrame ≤ v ∧ v < (blk.start + blk.size) * kBytesPerFrame}

/-- Every byte of every block of every boot run is mapped, to itself. -/
def BlocksMapped (descriptors : List MemoryDescriptor) (placement : TablePlacement)
    (other : ℕ → BitVec 64) : Prop :=
  ∀ sizes m blocks, bootRun descriptors sizes = some (m, blocks) →
    ∀ blk ∈ blocks, ∀ v ∈ blk.bytes, IdentityMapped placement other v

/-! ## The heap -/

/-- `InitializeHeap` after the scan is the first `Allocate` call of a boot run: on success
the program break runs over the bytes of its block, on an error nothing changes. -/
theorem initializeHeap_spec {map : UefiMemoryMap} (hcov : BitmapCovers map.descriptors)
    {m : BitmapMemoryManager} (hm : scanMemoryMap map.descriptors = some m)
    (brk : ProgramBreak) :
    (∃ s m' brk', initializeHeap m brk = some (.kSuccess, m', brk') ∧
      bootRun map.descriptors [kHeapFrames] = some (m', [⟨s, kHeapFrames⟩]) ∧
      (Block.mk s kHeapFrames).bytes =
        {v | brk'.programBreak ≤ v ∧ v < brk'.programBreakEnd}) ∨
    initializeHeap m brk = some (.kNoEnoughMemory, m, brk) := by
  obtain ⟨m₁, hm₁, _, hend₁, _⟩ := scanMemoryMap_clearFrames hcov.1
  have hsame : m = m₁ := Option.some.inj (hm.symm.trans hm₁)
  have hend : m.rangeEnd ≤ kFrameCount := by
    rw [hsame, hend₁]
    exact hcov.2
  rcases allocate_spec m hend (show 0 < kHeapFrames by decide) with
    ⟨s, m', hcall, hleast, _⟩ | ⟨_, hcall⟩
  · left
    -- the block ends inside the bitmap, so neither address of the heap wraps
    have hin : s + kHeapFrames ≤ 33554432 := kFrameCount_eq ▸ le_trans hleast.1.2.1 hend
    have hbegin : sizeT (s * kBytesPerFrame) = s * kBytesPerFrame := by
      apply sizeT_of_lt
      simp only [kHeapFrames, kBytesPerFrame] at hin ⊢
      omega
    have hbreak : sizeT (s * kBytesPerFrame + kHeapFrames * kBytesPerFrame)
        = (s + kHeapFrames) * kBytesPerFrame := by
      rw [← Nat.add_mul]
      apply sizeT_of_lt
      simp only [kHeapFrames, kBytesPerFrame] at hin ⊢
      omega
    refine ⟨s, m', ⟨s * kBytesPerFrame, (s + kHeapFrames) * kBytesPerFrame⟩, ?_, ?_, rfl⟩
    · unfold initializeHeap
      simp only [hcall, Option.map_some, hbegin, hbreak]
      rfl
    · rw [bootRun, hm, Option.bind_some, allocateAll, List.foldlM_cons,
        allocateNext_of_success hcall]
      rfl
  · right
    unfold initializeHeap
    simp only [hcall, Option.map_some]
    rfl

/-! ## The identity map -/

/-- The number of frames below `mappedBytes`. -/
def mappedFrames : ℕ := mappedBytes / kBytesPerFrame

/-- A byte lies in a block exactly when its frame does. -/
theorem Block.mem_bytes {blk : Block} {v : ℕ} :
    v ∈ blk.bytes ↔ v / kBytesPerFrame ∈ blk.frames := by
  have hpos : 0 < kBytesPerFrame := by decide
  unfold Block.bytes
  rw [Block.mem_frames, Set.mem_ofPred_eq, Nat.le_div_iff_mul_le hpos, Nat.div_lt_iff_lt_mul hpos]

theorem lt_mappedBytes_iff {v : ℕ} : v < mappedBytes ↔ v / kBytesPerFrame < mappedFrames := by
  have hpos : 0 < kBytesPerFrame := by decide
  have hmul : mappedFrames * kBytesPerFrame = mappedBytes := by decide
  rw [Nat.div_lt_iff_lt_mul hpos, hmul]

/-- The bytes of the frames the allocator manages have addresses far below `2 ^ 64`. -/
theorem identityMapped_iff_frame (placement : TablePlacement) (other : ℕ → BitVec 64) {v : ℕ}
    (hv : v / kBytesPerFrame < kFrameCount) :
    IdentityMapped placement other v ↔ v / kBytesPerFrame < mappedFrames := by
  rw [Nat.div_lt_iff_lt_mul (by decide)] at hv
  have htop : kFrameCount * kBytesPerFrame < 2 ^ 64 := by decide
  rw [identityMapped_iff placement other (by omega), lt_mappedBytes_iff]

section BlocksMapped

variable {map : UefiMemoryMap}

theorem blocksMapped_iff_usableFrames (hlimit : BelowLimit map.descriptors)
    (placement : TablePlacement) (other : ℕ → BitVec 64) :
    BlocksMapped map.descriptors placement other ↔
      ∀ f ∈ usableFrames map.descriptors, f < mappedFrames := by
  have hcov := bitmapCovers_of_belowLimit hlimit
  have hframe : ∀ f ∈ usableFrames map.descriptors, f < kFrameCount :=
    fun f hf => lt_of_lt_of_le hf.2.1 hcov.2
  constructor
  · intro hall f hf
    -- some run hands out `f`; its first byte is mapped
    obtain ⟨sizes, m, blocks, hrun, blk, hblk, hmem⟩ := (handedOut_iff hcov f).mpr hf
    have hdiv : f * kBytesPerFrame / kBytesPerFrame = f := Nat.mul_div_cancel f (by decide)
    have hmapped := hall sizes m blocks hrun blk hblk (f * kBytesPerFrame)
      (by rw [Block.mem_bytes, hdiv]; exact hmem)
    rw [identityMapped_iff_frame _ _ (by rw [hdiv]; exact hframe f hf), hdiv] at hmapped
    exact hmapped
  · intro hall sizes m blocks hrun blk hblk v hv
    have hf : v / kBytesPerFrame ∈ usableFrames map.descriptors :=
      (handedOut_iff hcov _).mp ⟨sizes, m, blocks, hrun, blk, hblk, Block.mem_bytes.mp hv⟩
    rw [identityMapped_iff_frame _ _ (hframe _ hf)]
    exact hall _ hf

/-- In an ascending map the usable frames are below `n` when the available regions are. -/
theorem usableFrames_lt_iff (hasc : Ascending map.descriptors) {n : ℕ} :
    (∀ f ∈ usableFrames map.descriptors, f < n) ↔
      ∀ desc ∈ map.descriptors, isAvailable desc.type = true → 1 < desc.endFrame →
        desc.numberOfPages ≠ 0 → desc.endFrame ≤ n := by
  simp only [mem_usableFrames_of_ascending hasc]
  constructor
  · intro hall desc hdesc havail hend hpages
    -- the last frame of the region is usable, since it is not frame 0
    have hlast : desc.endFrame - 1 ∈ desc.frames := by
      rw [MemoryDescriptor.mem_frames]
      simp only [MemoryDescriptor.endFrame] at hend ⊢
      omega
    have := hall (desc.endFrame - 1) ⟨by omega, desc, hdesc, havail, hlast⟩
    omega
  · intro hall f hf
    obtain ⟨hpos, desc, hdesc, havail, hlow, hhigh⟩ := hf
    have hpages : desc.numberOfPages ≠ 0 := by
      simp only [MemoryDescriptor.endFrame] at hhigh
      omega
    have := hall desc hdesc havail (by omega) hpages
    omega

end BlocksMapped

/-- The blocks of all boot runs are mapped exactly when no usable frame is at or above
64 GiB; for an ascending map, when the available regions end there. -/
theorem blocksMapped_iff (map : UefiMemoryMap) (hlimit : BelowLimit map.descriptors)
    (placement : TablePlacement) (other : ℕ → BitVec 64) :
    (BlocksMapped map.descriptors placement other ↔
      ∀ f ∈ usableFrames map.descriptors, f < mappedFrames) ∧
    (Ascending map.descriptors →
      (BlocksMapped map.descriptors placement other ↔
        ∀ desc ∈ map.descriptors, isAvailable desc.type = true → 1 < desc.endFrame →
          desc.numberOfPages ≠ 0 → desc.endFrame ≤ mappedFrames)) := by
  have hiff := blocksMapped_iff_usableFrames hlimit placement other
  exact ⟨hiff, fun hasc => hiff.trans (usableFrames_lt_iff hasc)⟩

/-- Tables in the first pages after 1 MiB. -/
def lowPlacement : TablePlacement where
  pml4Table := 0x101000
  pdpTable := 0x102000
  pageDirectory := 0x103000
  pml4Table_aligned := by decide
  pdpTable_aligned := by decide
  pageDirectory_aligned := by decide
  pml4Table_end := by decide
  pdpTable_end := by decide
  pageDirectory_end := by decide
  pml4_pdp := by decide
  pml4_directory := by decide
  pdp_directory := by decide

theorem blocksMapped_iff_gappedMemoryMap :
    BelowLimit gappedMemoryMap.descriptors ∧
    (BlocksMapped gappedMemoryMap.descriptors lowPlacement (fun _ => 0) ↔
      ∀ f ∈ usableFrames gappedMemoryMap.descriptors, f < mappedFrames) ∧
    (Ascending gappedMemoryMap.descriptors →
      (BlocksMapped gappedMemoryMap.descriptors lowPlacement (fun _ => 0) ↔
        ∀ desc ∈ gappedMemoryMap.descriptors, isAvailable desc.type = true →
          1 < desc.endFrame → desc.numberOfPages ≠ 0 → desc.endFrame ≤ mappedFrames)) :=
  ⟨by decide, blocksMapped_iff gappedMemoryMap (by decide) lowPlacement fun _ => 0⟩

/-- 640 KiB of conventional memory at 0, and 128 MiB of it at 64 GiB. -/
def highMemoryMap : UefiMemoryMap where
  descriptors := [⟨7, 0, 160⟩, ⟨7, 0x1000000000, 0x8000⟩]
  wellFormed := by decide

theorem mem_usableFrames_highMemoryMap {f : ℕ} :
    f ∈ usableFrames highMemoryMap.descriptors ↔
      1 ≤ f ∧ (f < 160 ∨ (0x1000000 ≤ f ∧ f < 0x1008000)) := by
  rw [mem_usableFrames_of_ascending (by decide)]
  have h1 : isAvailable 7 = true := by decide
  simp [highMemoryMap, h1, MemoryDescriptor.mem_frames, MemoryDescriptor.endFrame,
    MemoryDescriptor.startFrame, kUEFIPageSize]

/-- The heap does not fit below, so it is put at 64 GiB. -/
theorem bootRun_heap_highMemoryMap :
    ∃ m, bootRun highMemoryMap.descriptors [kHeapFrames] =
      some (m, [⟨0x1000000, kHeapFrames⟩]) := by
  apply bootRun_first_of_low_region (a := 160) (bitmapCovers_of_belowLimit (by decide))
    (by decide) (by decide) (by decide)
  intro f
  rw [mem_usableFrames_highMemoryMap]
  exact Iff.rfl

theorem heap_highMemoryMap_not_mapped :
    BelowLimit highMemoryMap.descriptors ∧
      ¬ BlocksMapped highMemoryMap.descriptors lowPlacement fun _ => 0 := by
  refine ⟨by decide, fun hall => ?_⟩
  obtain ⟨m, hrun⟩ := bootRun_heap_highMemoryMap
  have hmapped := hall _ _ _ hrun _ List.mem_cons_self (0x1000000 * kBytesPerFrame)
    (by rw [Block.mem_bytes, Block.mem_frames]; decide)
  rw [identityMapped_iff_frame _ _ (by decide)] at hmapped
  exact absurd hmapped (by decide)

end TommyOS
