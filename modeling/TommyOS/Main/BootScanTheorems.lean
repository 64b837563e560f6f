import TommyOS.Main.BootScan
import TommyOS.MemoryManager.BitmapMemoryManagerTheorems
import Mathlib.Data.List.Infix

/-!
# What the boot scan leaves usable

The scan, frame by frame. `scanMarks` is the set of frames the loop marks and
`lastAvailableEnd` the end of the range, both read off the list of descriptors; the loop
computes exactly these, unless a mark falls outside the bitmap (`MarksInBitmap`).
-/

namespace TommyOS

open BitmapMemoryManager

/-! ## The descriptors, frame by frame -/

/-- The end of the last available region of a list, in frames; 0 if there is none. -/
def lastAvailableEnd (descriptors : List MemoryDescriptor) : ℕ :=
  ((descriptors.filter fun desc => isAvailable desc.type).getLast?.map
    MemoryDescriptor.endFrame).getD 0

theorem lastAvailableEnd_concat (descriptors : List MemoryDescriptor)
    (desc : MemoryDescriptor) :
    lastAvailableEnd (descriptors ++ [desc])
      = if isAvailable desc.type then desc.endFrame else lastAvailableEnd descriptors := by
  unfold lastAvailableEnd
  rw [List.filter_append]
  by_cases h : isAvailable desc.type = true
  · have hone : [desc].filter (fun desc => isAvailable desc.type) = [desc] := by simp [h]
    rw [if_pos h, hone, List.getLast?_concat]
    rfl
  · have hnone : [desc].filter (fun desc => isAvailable desc.type) = [] := by simp [h]
    rw [if_neg h, hnone, List.append_nil]

/-- The frames the loop marks: those between the last available region so far and a region
that starts after it, and those of the regions that are not available. -/
def scanMarks (descriptors : List MemoryDescriptor) : Set ℕ :=
  {f | (∃ before desc, before ++ [desc] <+: descriptors ∧
      lastAvailableEnd before ≤ f ∧ f < desc.startFrame) ∨
    ∃ desc ∈ descriptors, isAvailable desc.type = false ∧ f ∈ desc.frames}

theorem mem_scanMarks_nil (f : ℕ) : f ∉ scanMarks [] := by
  intro h
  rcases h with ⟨before, desc, hpre, _⟩ | ⟨desc, hdesc, _⟩
  · rw [List.prefix_nil] at hpre
    exact List.append_ne_nil_of_right_ne_nil before (List.cons_ne_nil desc []) hpre
  · exact absurd hdesc List.not_mem_nil

/-- A property of every split of `l ++ [a]` at an element is one of every split of `l`, and
of the split at `a`. -/
theorem exists_prefix_concat {α : Type*} {l : List α} {a : α} {P : List α → α → Prop} :
    (∃ before x, before ++ [x] <+: l ++ [a] ∧ P before x) ↔
      P l a ∨ ∃ before x, before ++ [x] <+: l ∧ P before x := by
  constructor
  · intro h
    obtain ⟨before, x, hpre, hP⟩ := h
    -- the split is at the new element or inside the old list
    rcases List.prefix_concat_iff.mp hpre with heq | hpre'
    · obtain ⟨h1, h2⟩ := List.append_inj' heq rfl
      rw [h1, List.singleton_inj.mp h2] at hP
      exact Or.inl hP
    · exact Or.inr ⟨before, x, hpre', hP⟩
  · intro h
    rcases h with hP | ⟨before, x, hpre, hP⟩
    · exact ⟨l, a, List.prefix_refl _, hP⟩
    · exact ⟨before, x, hpre.trans (List.prefix_append l [a]), hP⟩

theorem mem_scanMarks_concat {descriptors : List MemoryDescriptor} {desc : MemoryDescriptor}
    {f : ℕ} :
    f ∈ scanMarks (descriptors ++ [desc]) ↔
      f ∈ scanMarks descriptors ∨
      (lastAvailableEnd descriptors ≤ f ∧ f < desc.startFrame) ∨
      (isAvailable desc.type = false ∧ f ∈ desc.frames) := by
  simp only [scanMarks, Set.mem_ofPred_eq, exists_prefix_concat, List.mem_append,
    List.mem_singleton, or_and_right, exists_or, exists_eq_left]
  -- the gap and the region of `desc`, and those of the descriptors before it
  constructor
  · intro h
    rcases h with (h | h) | (h | h)
    · exact Or.inr (Or.inl h)
    · exact Or.inl (Or.inl h)
    · exact Or.inl (Or.inr h)
    · exact Or.inr (Or.inr h)
  · intro h
    rcases h with (h | h) | (h | h)
    · exact Or.inl (Or.inr h)
    · exact Or.inr (Or.inl h)
    · exact Or.inl (Or.inl h)
    · exact Or.inr (Or.inr h)

/-- Every frame the loop marks has a bit: a region starts inside the bitmap or before the
last available region has ended, and a region that is not available ends inside it. -/
def MarksInBitmap (descriptors : List MemoryDescriptor) : Prop :=
  (∀ before desc, before ++ [desc] <+: descriptors →
    desc.startFrame ≤ kFrameCount ∨ desc.startFrame ≤ lastAvailableEnd before) ∧
  ∀ desc ∈ descriptors, isAvailable desc.type = false → desc.numberOfPages ≠ 0 →
    desc.endFrame ≤ kFrameCount

theorem marksInBitmap_concat {descriptors : List MemoryDescriptor} {desc : MemoryDescriptor} :
    MarksInBitmap (descriptors ++ [desc]) ↔ MarksInBitmap descriptors ∧
      (desc.startFrame ≤ kFrameCount ∨ desc.startFrame ≤ lastAvailableEnd descriptors) ∧
      (isAvailable desc.type = false → desc.numberOfPages ≠ 0 →
        desc.endFrame ≤ kFrameCount) := by
  constructor
  · intro h
    refine ⟨⟨fun before x hpre => h.1 before x (hpre.trans (List.prefix_append _ _)),
      fun x hx => h.2 x (List.mem_append_left _ hx)⟩, h.1 descriptors desc (List.prefix_refl _),
      h.2 desc (List.mem_append_right _ (List.mem_singleton_self desc))⟩
  · intro h
    obtain ⟨⟨hsplit, hregion⟩, hgap, hdesc⟩ := h
    refine ⟨fun before x hpre => ?_, fun x hx => ?_⟩
    · rcases List.prefix_concat_iff.mp hpre with heq | hpre'
      · obtain ⟨h1, h2⟩ := List.append_inj' heq rfl
        rw [h1, List.singleton_inj.mp h2]
        exact hgap
      · exact hsplit before x hpre'
    · rcases List.mem_append.mp hx with hmem | hmem
      · exact hregion x hmem
      · rw [List.mem_singleton.mp hmem]
        exact hdesc

/-! ## One iteration -/

/-- The state of the loop when `available_end` is at frame `a`. -/
structure ScanState.At (st : ScanState) (a : ℕ) : Prop where
  availableEnd : st.availableEnd = a * kUEFIPageSize
  lt : a < 2 ^ 52

variable {st : ScanState} {a : ℕ} {desc : MemoryDescriptor}

theorem ScanState.At.gap (hst : st.At a) (hdesc : desc.WellFormed) :
    markGap st desc = if a < desc.startFrame then
      st.memoryManager.markAllocated a (desc.startFrame - a) else some st.memoryManager := by
  unfold markGap
  rw [hst.availableEnd, hdesc.physicalStart_eq, ← Nat.sub_mul]
  have hpage : kBytesPerFrame = kUEFIPageSize := rfl
  have hpos : 0 < kUEFIPageSize := by decide
  rw [hpage, Nat.mul_div_cancel _ hpos, Nat.mul_div_cancel _ hpos]
  simp only [Nat.mul_lt_mul_right hpos]

/-- The gap in front of a region is marked when it has bits. -/
theorem markGap_eq_some (hst : st.At a) (hdesc : desc.WellFormed)
    (hgap : desc.startFrame ≤ kFrameCount ∨ desc.startFrame ≤ a) :
    ∃ m, markGap st desc = some m ∧ m.rangeBegin = st.memoryManager.rangeBegin ∧
      ∀ f, m.bit f = true ↔
        st.memoryManager.bit f = true ∨ (a ≤ f ∧ f < desc.startFrame) := by
  rw [hst.gap hdesc]
  by_cases hlt : a < desc.startFrame
  · rw [if_pos hlt]
    obtain ⟨m, hm, hset⟩ := markAllocated_eq_some st.memoryManager
      (show a + (desc.startFrame - a) ≤ kFrameCount by omega)
    refine ⟨m, hm, hset.rangeBegin, fun f => ?_⟩
    rw [hset.bit_true, List.mem_range'_1]
    have hlast : a + (desc.startFrame - a) = desc.startFrame := by omega
    rw [hlast]
  · rw [if_neg hlt]
    refine ⟨_, rfl, rfl, fun f => ?_⟩
    have hnone : ¬ (a ≤ f ∧ f < desc.startFrame) := by omega
    simp [hnone]

theorem markGap_eq_none (hst : st.At a) (hdesc : desc.WellFormed)
    (hgap : ¬ (desc.startFrame ≤ kFrameCount ∨ desc.startFrame ≤ a)) :
    markGap st desc = none := by
  have hlt := hdesc.endFrame_lt
  have hle := desc.startFrame_le_endFrame
  rw [hst.gap hdesc, if_pos (by omega)]
  -- the gap is not empty and its last frame, in front of the region, is past the map
  exact markAllocated_eq_none _ (by omega) (by omega) (by omega)

/-- The `MarkAllocated` call for a region that is not available, in frames. -/
theorem markRegion_eq (m : BitmapMemoryManager) (hdesc : desc.WellFormed) :
    m.markAllocated (desc.physicalStart / kBytesPerFrame) (desc.byteCount / kBytesPerFrame)
      = m.markAllocated desc.startFrame desc.numberOfPages := by
  have hpos : 0 < kUEFIPageSize := by decide
  rw [hdesc.byteCount_eq]
  have hpages : desc.numberOfPages * kUEFIPageSize / kBytesPerFrame = desc.numberOfPages :=
    Nat.mul_div_cancel _ hpos
  rw [hpages]
  rfl

/-- One iteration whose marks have bits: it marks the gap and the region, and moves
`available_end` to the end of an available region. -/
theorem scanDescriptor_eq_some (hst : st.At a) (hdesc : desc.WellFormed)
    (hgap : desc.startFrame ≤ kFrameCount ∨ desc.startFrame ≤ a)
    (hregion : isAvailable desc.type = false → desc.numberOfPages ≠ 0 →
      desc.endFrame ≤ kFrameCount) :
    ∃ st', scanDescriptor st desc = some st' ∧
      st'.At (if isAvailable desc.type then desc.endFrame else a) ∧
      ∀ f, st'.memoryManager.bit f = true ↔ st.memoryManager.bit f = true ∨
        (a ≤ f ∧ f < desc.startFrame) ∨ (isAvailable desc.type = false ∧ f ∈ desc.frames) := by
  obtain ⟨m, hm, _, hbit⟩ := markGap_eq_some hst hdesc hgap
  unfold scanDescriptor
  by_cases havail : isAvailable desc.type = true
  · refine ⟨⟨desc.physicalEnd, m⟩, ?_, ⟨?_, ?_⟩, fun f => ?_⟩
    · rw [hm]
      simp [havail]
    · rw [if_pos havail]
      exact hdesc.physicalEnd_eq
    · rw [if_pos havail]
      exact hdesc.endFrame_lt
    · rw [hbit]
      simp [havail]
  · have hfalse : isAvailable desc.type = false := by simpa using havail
    have hmark : ∃ m', m.markAllocated desc.startFrame desc.numberOfPages = some m' ∧
        Assigned m (List.range' desc.startFrame desc.numberOfPages) true m' := by
      -- an empty region may start anywhere: its `MarkAllocated` touches no bit
      by_cases hpages : desc.numberOfPages = 0
      · refine ⟨m, by rw [hpages, markAllocated_zero], rfl, rfl, fun k => ?_⟩
        simp [hpages]
      · exact markAllocated_eq_some m (hregion hfalse hpages)
    obtain ⟨m', hm', hset⟩ := hmark
    refine ⟨⟨st.availableEnd, m'⟩, ?_, ⟨?_, ?_⟩, fun f => ?_⟩
    · rw [hm]
      simp only [Option.bind_eq_bind, Option.bind_some, hfalse, Bool.false_eq_true, if_false,
        markRegion_eq m hdesc, hm']
    · rw [if_neg havail]
      exact hst.availableEnd
    · rw [if_neg havail]
      exact hst.lt
    · rw [hset.bit_true, hbit, List.mem_range'_1, or_assoc]
      simp only [hfalse, true_and]
      rfl

/-- One iteration with a mark that has no bit. -/
theorem scanDescriptor_eq_none (hst : st.At a) (hdesc : desc.WellFormed)
    (h : ¬ ((desc.startFrame ≤ kFrameCount ∨ desc.startFrame ≤ a) ∧
      (isAvailable desc.type = false → desc.numberOfPages ≠ 0 →
        desc.endFrame ≤ kFrameCount))) :
    scanDescriptor st desc = none := by
  unfold scanDescriptor
  by_cases hgap : desc.startFrame ≤ kFrameCount ∨ desc.startFrame ≤ a
  · obtain ⟨m, hm, _, _⟩ := markGap_eq_some hst hdesc hgap
    have hregion : ¬ (isAvailable desc.type = false → desc.numberOfPages ≠ 0 →
        desc.endFrame ≤ kFrameCount) := fun hr => h ⟨hgap, hr⟩
    obtain ⟨hfalse, hrest⟩ := Classical.not_imp.mp hregion
    obtain ⟨hpages, hend⟩ := Classical.not_imp.mp hrest
    have hlt := hdesc.endFrame_lt
    have hnone : m.markAllocated desc.startFrame desc.numberOfPages = none := by
      simp only [MemoryDescriptor.endFrame] at hend hlt
      exact markAllocated_eq_none m (by omega) (by omega) (by omega)
    rw [hm]
    simp only [Option.bind_eq_bind, Option.bind_some, hfalse, Bool.false_eq_true, if_false,
      markRegion_eq m hdesc, hnone, Option.bind_none]
  · rw [markGap_eq_none hst hdesc hgap]
    rfl

/-! ## The whole loop -/

theorem scanLoop_concat (descriptors : List MemoryDescriptor) (desc : MemoryDescriptor) :
    scanLoop (descriptors ++ [desc])
      = (scanLoop descriptors).bind fun st => scanDescriptor st desc := by
  unfold scanLoop
  rw [List.foldlM_append]
  simp

/-- The loop ends at the end of the last available region, with exactly `scanMarks` marked. -/
theorem scanLoop_eq_some {descriptors : List MemoryDescriptor}
    (hwf : ∀ desc ∈ descriptors, desc.WellFormed) (hin : MarksInBitmap descriptors) :
    ∃ st, scanLoop descriptors = some st ∧ st.At (lastAvailableEnd descriptors) ∧
      ∀ f, st.memoryManager.bit f = true ↔ f ∈ scanMarks descriptors := by
  induction descriptors using List.reverseRecOn with
  | nil =>
    refine ⟨⟨0, .new⟩, rfl, ⟨rfl, by decide⟩, fun f => ?_⟩
    simp [bit_new, mem_scanMarks_nil]
  | append_singleton descriptors desc ih =>
    rw [marksInBitmap_concat] at hin
    obtain ⟨st, hloop, hst, hbit⟩ := ih (fun x hx => hwf x (List.mem_append_left _ hx)) hin.1
    have hdesc := hwf desc (List.mem_append_right _ (List.mem_singleton_self desc))
    obtain ⟨st', hstep, hst', hbit'⟩ := scanDescriptor_eq_some hst hdesc hin.2.1 hin.2.2
    refine ⟨st', ?_, ?_, fun f => ?_⟩
    · rw [scanLoop_concat, hloop]
      exact hstep
    · rw [lastAvailableEnd_concat]
      exact hst'
    · rw [hbit', hbit, mem_scanMarks_concat]

/-- A mark without a bit makes the loop leave `alloc_map_`. -/
theorem scanLoop_eq_none {descriptors : List MemoryDescriptor}
    (hwf : ∀ desc ∈ descriptors, desc.WellFormed) (hin : ¬ MarksInBitmap descriptors) :
    scanLoop descriptors = none := by
  induction descriptors using List.reverseRecOn with
  | nil =>
    refine absurd ⟨fun before desc hpre => ?_, fun desc hdesc => ?_⟩ hin
    · rw [List.prefix_nil] at hpre
      exact absurd hpre (List.append_ne_nil_of_right_ne_nil before (List.cons_ne_nil desc []))
    · exact absurd hdesc List.not_mem_nil
  | append_singleton descriptors desc ih =>
    have hwf' : ∀ x ∈ descriptors, x.WellFormed := fun x hx => hwf x (List.mem_append_left _ hx)
    have hdesc := hwf desc (List.mem_append_right _ (List.mem_singleton_self desc))
    rw [scanLoop_concat]
    by_cases hpre : MarksInBitmap descriptors
    · obtain ⟨st, hloop, hst, _⟩ := scanLoop_eq_some hwf' hpre
      rw [hloop]
      -- the descriptors before it are in order, so it is the last one that leaves the map
      apply scanDescriptor_eq_none hst hdesc
      intro h
      apply hin
      rw [marksInBitmap_concat]
      exact ⟨hpre, h⟩
    · rw [ih hwf' hpre]
      rfl

/-- The manager the scan leaves: it searches `[1, lastAvailableEnd)` and has exactly
`scanMarks` marked. -/
theorem scanMemoryMap_eq_some {descriptors : List MemoryDescriptor}
    (hwf : ∀ desc ∈ descriptors, desc.WellFormed) (hin : MarksInBitmap descriptors) :
    ∃ m, scanMemoryMap descriptors = some m ∧ m.rangeBegin = 1 ∧
      m.rangeEnd = lastAvailableEnd descriptors ∧
      ∀ f, m.bit f = true ↔ f ∈ scanMarks descriptors := by
  obtain ⟨st, hloop, hst, hbit⟩ := scanLoop_eq_some hwf hin
  refine ⟨_, by rw [scanMemoryMap, hloop]; rfl, rfl, ?_, fun f => ?_⟩
  · rw [rangeEnd_setMemoryRange, hst.availableEnd]
    exact Nat.mul_div_cancel _ (by decide)
  · rw [bit_setMemoryRange]
    exact hbit f

theorem scanMemoryMap_eq_none {descriptors : List MemoryDescriptor}
    (hwf : ∀ desc ∈ descriptors, desc.WellFormed) (hin : ¬ MarksInBitmap descriptors) :
    scanMemoryMap descriptors = none := by
  rw [scanMemoryMap, scanLoop_eq_none hwf hin]
  rfl

/-! ## Marked frames and available regions -/

/-- A frame in front of `lastAvailableEnd` that is not marked lies in an available region,
whatever the order of the descriptors. -/
theorem available_of_not_marked {descriptors : List MemoryDescriptor} {f : ℕ}
    (hlt : f < lastAvailableEnd descriptors) (hmark : f ∉ scanMarks descriptors) :
    ∃ desc ∈ descriptors, isAvailable desc.type = true ∧ f ∈ desc.frames := by
  induction descriptors using List.reverseRecOn with
  | nil => exact absurd hlt (Nat.not_lt_zero f)
  | append_singleton descriptors desc ih =>
    rw [mem_scanMarks_concat, not_or, not_or] at hmark
    rw [lastAvailableEnd_concat] at hlt
    have hearlier : f < lastAvailableEnd descriptors →
        ∃ x ∈ descriptors ++ [desc], isAvailable x.type = true ∧ f ∈ x.frames := by
      intro h
      obtain ⟨x, hx, hx'⟩ := ih h hmark.1
      exact ⟨x, List.mem_append_left _ hx, hx'⟩
    by_cases havail : isAvailable desc.type = true
    · rw [if_pos havail] at hlt
      by_cases hstart : desc.startFrame ≤ f
      · exact ⟨desc, List.mem_append_right _ (List.mem_singleton_self desc), havail, hstart, hlt⟩
      · -- in front of the region: the gap would be marked
        apply hearlier
        by_contra hle
        exact hmark.2.1 ⟨Nat.le_of_not_lt hle, Nat.lt_of_not_le hstart⟩
    · rw [if_neg havail] at hlt
      exact hearlier hlt

/-- Regions in ascending order that do not overlap. -/
def Ascending (descriptors : List MemoryDescriptor) : Prop :=
  descriptors.Pairwise fun d d' => d.endFrame ≤ d'.startFrame

/-- Nothing is marked past the end of the last region. -/
theorem scanMarks_lt {descriptors : List MemoryDescriptor} {b f : ℕ}
    (hb : ∀ desc ∈ descriptors, desc.endFrame ≤ b) (hf : f ∈ scanMarks descriptors) :
    f < b := by
  rcases hf with ⟨before, desc, hpre, _, hlt⟩ | ⟨desc, hdesc, _, hfr⟩
  · have hmem : desc ∈ descriptors :=
      hpre.subset (List.mem_append_right _ (List.mem_singleton_self desc))
    have := hb desc hmem
    have := desc.startFrame_le_endFrame
    omega
  · have := hb desc hdesc
    have := hfr.2
    omega

/-- In an ascending map the frames of the available regions are in front of
`lastAvailableEnd` and not marked. -/
theorem not_marked_of_available {descriptors : List MemoryDescriptor}
    (hasc : Ascending descriptors) {desc : MemoryDescriptor} (hdesc : desc ∈ descriptors)
    (havail : isAvailable desc.type = true) {f : ℕ} (hf : f ∈ desc.frames) :
    f < lastAvailableEnd descriptors ∧ f ∉ scanMarks descriptors := by
  induction descriptors using List.reverseRecOn with
  | nil => exact absurd hdesc List.not_mem_nil
  | append_singleton descriptors last ih =>
    have hsplit := List.pairwise_append.mp hasc
    have hbefore : ∀ x ∈ descriptors, x.endFrame ≤ last.startFrame :=
      fun x hx => hsplit.2.2 x hx last (List.mem_singleton_self last)
    rw [lastAvailableEnd_concat, mem_scanMarks_concat, not_or, not_or]
    rcases List.mem_append.mp hdesc with hmem | hmem
    -- a region before the last one: the last one starts after it, so it marks none of it
    · obtain ⟨hlt, hmark⟩ := ih hsplit.1 hmem
      have hstart := hbefore desc hmem
      have hend := hf.2
      have hlast := last.startFrame_le_endFrame
      refine ⟨?_, hmark, by omega, fun h => ?_⟩
      · by_cases hl : isAvailable last.type = true
        · rw [if_pos hl]; omega
        · rw [if_neg hl]; exact hlt
      · have := h.2.1
        omega
    · rw [List.mem_singleton.mp hmem] at hf havail
      rw [if_pos havail]
      refine ⟨hf.2, fun h => ?_, fun h => ?_, fun h => ?_⟩
      · have := scanMarks_lt hbefore h
        have := hf.1
        omega
      · have := hf.1
        omega
      · rw [havail] at h
        cases h.1

/-! ## The scan of a map below 128 GiB -/

/-- Every region ends at or below `kMaxPhysicalMemoryBytes`. -/
def BelowLimit (descriptors : List MemoryDescriptor) : Prop :=
  ∀ desc ∈ descriptors,
    desc.physicalStart + desc.numberOfPages * kUEFIPageSize ≤ kMaxPhysicalMemoryBytes

instance (descriptors : List MemoryDescriptor) : Decidable (BelowLimit descriptors) :=
  inferInstanceAs (Decidable (∀ desc ∈ descriptors, _ ≤ _))

instance (descriptors : List MemoryDescriptor) : Decidable (Ascending descriptors) :=
  inferInstanceAs (Decidable (descriptors.Pairwise _))

theorem endFrame_le_of_belowLimit {map : UefiMemoryMap} (hlimit : BelowLimit map.descriptors)
    {desc : MemoryDescriptor} (hdesc : desc ∈ map.descriptors) :
    desc.endFrame ≤ kFrameCount := by
  have hle := hlimit desc hdesc
  have hstart := (map.wellFormed desc hdesc).physicalStart_eq
  simp only [kUEFIPageSize, kMaxPhysicalMemoryBytes] at hle hstart
  rw [MemoryDescriptor.endFrame, kFrameCount_eq]
  omega

theorem lastAvailableEnd_le {descriptors : List MemoryDescriptor} {b : ℕ}
    (h : ∀ desc ∈ descriptors, desc.endFrame ≤ b) : lastAvailableEnd descriptors ≤ b := by
  induction descriptors using List.reverseRecOn with
  | nil => exact Nat.zero_le b
  | append_singleton descriptors desc ih =>
    rw [lastAvailableEnd_concat]
    split
    · exact h desc (List.mem_append_right _ (List.mem_singleton_self desc))
    · exact ih fun x hx => h x (List.mem_append_left _ hx)

theorem marksInBitmap_of_belowLimit {map : UefiMemoryMap}
    (hlimit : BelowLimit map.descriptors) : MarksInBitmap map.descriptors := by
  refine ⟨fun before desc hpre => Or.inl ?_,
    fun desc hdesc _ _ => endFrame_le_of_belowLimit hlimit hdesc⟩
  have hmem : desc ∈ map.descriptors :=
    hpre.subset (List.mem_append_right _ (List.mem_singleton_self desc))
  exact le_trans desc.startFrame_le_endFrame (endFrame_le_of_belowLimit hlimit hmem)

/-- After the scan of a map below 128 GiB: a clear frame of the range lies in an available
region, and if the regions are in ascending order the frames of every available region, but
for frame 0, are clear and in the range. -/
theorem scanMemoryMap_available (map : UefiMemoryMap) (hlimit : BelowLimit map.descriptors) :
    ∃ m, scanMemoryMap map.descriptors = some m ∧ m.rangeBegin = 1 ∧
      (∀ f, 1 ≤ f → f < m.rangeEnd → m.bit f = false →
        ∃ desc ∈ map.descriptors, isAvailable desc.type = true ∧ f ∈ desc.frames) ∧
      (Ascending map.descriptors → ∀ desc ∈ map.descriptors, isAvailable desc.type = true →
        ∀ f ∈ desc.frames, 1 ≤ f → f < m.rangeEnd ∧ m.bit f = false) := by
  have hin := marksInBitmap_of_belowLimit hlimit
  obtain ⟨m, hm, hbegin, hend, hbit⟩ := scanMemoryMap_eq_some map.wellFormed hin
  refine ⟨m, hm, hbegin, fun f _ hlt hclear => ?_, fun hasc desc hdesc havail f hf _ => ?_⟩
  · rw [hend] at hlt
    apply available_of_not_marked hlt
    intro hmark
    rw [(hbit f).mpr hmark] at hclear
    cases hclear
  · obtain ⟨hlt, hmark⟩ := not_marked_of_available hasc hdesc havail hf
    rw [hend]
    refine ⟨hlt, ?_⟩
    rw [Bool.eq_false_iff, Ne, hbit]
    exact hmark

/-- Conventional memory, a reserved region above it, and boot services data after a gap. -/
def gappedMemoryMap : UefiMemoryMap where
  descriptors := [⟨7, 0, 159⟩, ⟨0, 0x9f000, 1⟩, ⟨4, 0x100000, 256⟩]
  wellFormed := by decide

theorem scanMemoryMap_available_gappedMemoryMap :
    BelowLimit gappedMemoryMap.descriptors ∧
    ∃ m, scanMemoryMap gappedMemoryMap.descriptors = some m ∧ m.rangeBegin = 1 ∧
      (∀ f, 1 ≤ f → f < m.rangeEnd → m.bit f = false →
        ∃ desc ∈ gappedMemoryMap.descriptors,
          isAvailable desc.type = true ∧ f ∈ desc.frames) ∧
      (Ascending gappedMemoryMap.descriptors → ∀ desc ∈ gappedMemoryMap.descriptors,
        isAvailable desc.type = true → ∀ f ∈ desc.frames, 1 ≤ f →
          f < m.rangeEnd ∧ m.bit f = false) :=
  ⟨by decide, scanMemoryMap_available gappedMemoryMap (by decide)⟩

end TommyOS
