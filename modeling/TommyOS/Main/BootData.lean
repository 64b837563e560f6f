import TommyOS.Main.BootAllocations

/-!
# Boot data the kernel goes on using

`KernelMainNewStack` binds the `FrameBufferConfig` of the boot loader by reference, and
`FrameBufferWriter` reads it on every later `Write`. It is a local variable of `UefiMain`, on
a stack that the firmware keeps in boot services data; the kernel treats regions of that
type as free memory.
-/

namespace TommyOS

open BitmapMemoryManager

/-- `sizeof(FrameBufferConfig)`: a pointer, three 32-bit numbers and an enumeration. -/
def kFrameBufferConfigBytes : ℕ := 24

/-- The frames that hold a `FrameBufferConfig` at address `config`. -/
def configFrames (config : ℕ) : Set ℕ :=
  {f | config / kBytesPerFrame ≤ f ∧ f ≤ (config + kFrameBufferConfigBytes - 1) / kBytesPerFrame}

/-- The map lists the memory of the `FrameBufferConfig` as boot services data. -/
def OnBootStack (descriptors : List MemoryDescriptor) (config : ℕ) : Prop :=
  ∃ desc ∈ descriptors, desc.type = MemoryType.kEfiBootServicesData.value ∧
    desc.physicalStart ≤ config ∧
    config + kFrameBufferConfigBytes ≤ desc.physicalStart + desc.numberOfPages * kUEFIPageSize

/-- No boot run hands out a frame of the `FrameBufferConfig`. -/
def ConfigKept (descriptors : List MemoryDescriptor) (config : ℕ) : Prop :=
  ∀ sizes, ∃ m blocks, bootRun descriptors sizes = some (m, blocks) ∧
    ∀ blk ∈ blocks, Disjoint (configFrames config) blk.frames

theorem configKept_iff_usableFrames (map : UefiMemoryMap) (config : ℕ) :
    ConfigKept map.descriptors config ↔
      BitmapCovers map.descriptors ∧
        Disjoint (configFrames config) (usableFrames map.descriptors) := by
  constructor
  · intro hkept
    have hcov : BitmapCovers map.descriptors := by
      apply bitmapCovers_of_bootRun
      intro sizes
      obtain ⟨m, blocks, hrun, _⟩ := hkept sizes
      exact ⟨_, hrun⟩
    refine ⟨hcov, Set.disjoint_left.mpr fun f hconfig hf => ?_⟩
    -- a usable frame is handed out by some run, and that run takes it from the configuration
    obtain ⟨sizes, m, blocks, hrun, blk, hblk, hmem⟩ := (handedOut_iff hcov f).mpr hf
    obtain ⟨m', blocks', hrun', hdisj⟩ := hkept sizes
    rw [hrun] at hrun'
    cases hrun'
    exact Set.disjoint_left.mp (hdisj blk hblk) hconfig hmem
  · intro h sizes
    obtain ⟨m, blocks, hrun, hsub⟩ := bootRun_eq_some h.1 sizes
    exact ⟨m, blocks, hrun, fun blk hblk => h.2.mono_right (hsub blk hblk)⟩

/-- Every frame of the `FrameBufferConfig` is one of an available region. -/
theorem available_of_onBootStack {map : UefiMemoryMap} {config f : ℕ}
    (hstack : OnBootStack map.descriptors config) (hf : f ∈ configFrames config) :
    ∃ desc ∈ map.descriptors, isAvailable desc.type = true ∧ f ∈ desc.frames := by
  obtain ⟨desc, hdesc, htype, hlow, hhigh⟩ := hstack
  refine ⟨desc, hdesc, by rw [htype]; decide, ?_⟩
  have hstart := (map.wellFormed desc hdesc).physicalStart_eq
  obtain ⟨hfirst, hlast⟩ := hf
  rw [MemoryDescriptor.mem_frames]
  simp only [MemoryDescriptor.endFrame, kBytesPerFrame, kFrameBufferConfigBytes,
    kUEFIPageSize] at *
  omega

/-- The `FrameBufferConfig` is out of reach of the allocator exactly when the bitmap covers
the map and none of its frames is usable; for an ascending map below 128 GiB, exactly when
it lies in frame 0. -/
theorem configKept_iff (map : UefiMemoryMap) (config : ℕ)
    (hstack : OnBootStack map.descriptors config) :
    (ConfigKept map.descriptors config ↔
      BitmapCovers map.descriptors ∧
        Disjoint (configFrames config) (usableFrames map.descriptors)) ∧
    (Ascending map.descriptors → BelowLimit map.descriptors →
      (ConfigKept map.descriptors config ↔
        config + kFrameBufferConfigBytes ≤ kBytesPerFrame)) := by
  have hiff := configKept_iff_usableFrames map config
  refine ⟨hiff, fun hasc hlimit => hiff.trans ⟨fun h => ?_, fun h => ?_⟩⟩
  · -- past frame 0 the last frame of the configuration would be usable
    by_contra hlt
    have hlast : (config + kFrameBufferConfigBytes - 1) / kBytesPerFrame ∈ configFrames config :=
      ⟨Nat.div_le_div_right (by simp only [kFrameBufferConfigBytes]; omega), le_refl _⟩
    have hpos : 1 ≤ (config + kFrameBufferConfigBytes - 1) / kBytesPerFrame := by
      rw [Nat.le_div_iff_mul_le (by decide)]
      omega
    apply Set.disjoint_left.mp h.2 hlast
    rw [mem_usableFrames_of_ascending hasc]
    exact ⟨hpos, available_of_onBootStack hstack hlast⟩
  · refine ⟨bitmapCovers_of_belowLimit hlimit, Set.disjoint_left.mpr fun f hf husable => ?_⟩
    -- all frames of the configuration are frame 0, which is never usable
    have hpos := husable.1
    have hzero : (config + kFrameBufferConfigBytes - 1) / kBytesPerFrame = 0 :=
      Nat.div_eq_of_lt (by simp only [kFrameBufferConfigBytes] at h ⊢; omega)
    have hle := hf.2
    omega

/-- 640 KiB of conventional memory, and 128 MiB of boot services data at 1 MiB. -/
def bootServicesMap : UefiMemoryMap where
  descriptors := [⟨7, 0, 160⟩, ⟨4, 0x100000, 0x8000⟩]
  wellFormed := by decide

/-- A `FrameBufferConfig` near the end of the boot services data. -/
def exampleConfig : ℕ := 0x80fff00

theorem onBootStack_exampleConfig : OnBootStack bootServicesMap.descriptors exampleConfig :=
  ⟨⟨4, 0x100000, 0x8000⟩, by decide, by decide, by decide, by decide⟩

theorem configKept_iff_bootServicesMap :
    OnBootStack bootServicesMap.descriptors exampleConfig ∧
    (ConfigKept bootServicesMap.descriptors exampleConfig ↔
      BitmapCovers bootServicesMap.descriptors ∧
        Disjoint (configFrames exampleConfig) (usableFrames bootServicesMap.descriptors)) ∧
    (Ascending bootServicesMap.descriptors → BelowLimit bootServicesMap.descriptors →
      (ConfigKept bootServicesMap.descriptors exampleConfig ↔
        exampleConfig + kFrameBufferConfigBytes ≤ kBytesPerFrame)) :=
  ⟨onBootStack_exampleConfig,
    configKept_iff bootServicesMap exampleConfig onBootStack_exampleConfig⟩

theorem mem_usableFrames_bootServicesMap {f : ℕ} :
    f ∈ usableFrames bootServicesMap.descriptors ↔
      1 ≤ f ∧ (f < 160 ∨ (0x100 ≤ f ∧ f < 0x8100)) := by
  rw [mem_usableFrames_of_ascending (by decide)]
  have h7 : isAvailable 7 = true := by decide
  have h4 : isAvailable 4 = true := by decide
  simp [bootServicesMap, h7, h4, MemoryDescriptor.mem_frames, MemoryDescriptor.endFrame,
    MemoryDescriptor.startFrame, kUEFIPageSize]

/-- The heap takes the whole region of boot services data. -/
theorem bootRun_heap_bootServicesMap :
    ∃ m, bootRun bootServicesMap.descriptors [kHeapFrames] =
      some (m, [⟨0x100, kHeapFrames⟩]) := by
  apply bootRun_first_of_low_region (a := 160) (bitmapCovers_of_belowLimit (by decide))
    (by decide) (by decide) (by decide)
  intro f
  rw [mem_usableFrames_bootServicesMap]
  exact Iff.rfl

theorem heap_bootServicesMap_covers_config :
    OnBootStack bootServicesMap.descriptors exampleConfig ∧
      ¬ ConfigKept bootServicesMap.descriptors exampleConfig := by
  refine ⟨onBootStack_exampleConfig, fun hkept => ?_⟩
  obtain ⟨m, hrun⟩ := bootRun_heap_bootServicesMap
  obtain ⟨m', blocks, hrun', hdisj⟩ := hkept [kHeapFrames]
  rw [hrun] at hrun'
  cases hrun'
  refine Set.disjoint_left.mp (hdisj _ List.mem_cons_self)
    (show 0x80ff ∈ configFrames exampleConfig from ?_) ?_
  · unfold configFrames
    rw [Set.mem_ofPred_eq]
    decide
  · rw [Block.mem_frames]
    decide

end TommyOS
