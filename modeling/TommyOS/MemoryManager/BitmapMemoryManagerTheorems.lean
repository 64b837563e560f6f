import TommyOS.MemoryManager.BitmapMemoryManager
import Mathlib.Order.Bounds.Basic

/-!
# What the operations of `BitmapMemoryManager` do

One specification lemma for each operation, stated on `bit`, the bit of a frame in
`alloc_map_`. `allocate_spec` is the exact first-fit statement: later modules use it and
the specifications of `markAllocated` and `free`, and never look at words or masks again.
-/

namespace TommyOS
namespace BitmapMemoryManager

theorem kFrameCount_eq : kFrameCount = 33554432 := by decide

theorem kMapLines_eq : kMapLines = 524288 := by decide

theorem kBitsPerMapLine_eq : kBitsPerMapLine = 64 := rfl

theorem kFrameCount_lt_sizeT : kFrameCount < 2 ^ 64 := by decide

theorem sizeT_of_lt {n : ℕ} (h : n < 2 ^ 64) : sizeT n = n := Nat.mod_eq_of_lt h

/-- The line index of a frame is inside `alloc_map_` exactly for the frames it has a bit
for. -/
theorem lineIndex_lt_iff (frame : ℕ) :
    frame / kBitsPerMapLine < kMapLines ↔ frame < kFrameCount := by
  rw [kMapLines_eq, kBitsPerMapLine_eq, kFrameCount_eq]
  omega

/-- The bit of a frame. -/
def bit (m : BitmapMemoryManager) (frame : ℕ) : Bool := m.allocMap.test frame

theorem bit_new (frame : ℕ) : new.bit frame = false := PackedBitmap.test_zero frame

@[simp] theorem bit_setMemoryRange (m : BitmapMemoryManager) (b e frame : ℕ) :
    (m.setMemoryRange b e).bit frame = m.bit frame := rfl

@[simp] theorem rangeBegin_setMemoryRange (m : BitmapMemoryManager) (b e : ℕ) :
    (m.setMemoryRange b e).rangeBegin = b := rfl

@[simp] theorem rangeEnd_setMemoryRange (m : BitmapMemoryManager) (b e : ℕ) :
    (m.setMemoryRange b e).rangeEnd = e := rfl

/-! ## Single bits -/

theorem getBit_eq_some (m : BitmapMemoryManager) {frame : ℕ} (h : frame < kFrameCount) :
    m.getBit frame = some (m.bit frame) := by
  have hline := (lineIndex_lt_iff frame).mpr h
  have hbit : frame % kBitsPerMapLine < kBitsPerMapLine := Nat.mod_lt _ (by decide)
  unfold getBit bit
  rw [dif_pos hline, PackedBitmap.test_of_lt _ hline]
  apply congrArg some
  rw [Bool.eq_iff_iff, decide_eq_true_iff]
  exact PackedBitmap.and_one_shiftLeft_ne_zero _ hbit

theorem getBit_eq_none (m : BitmapMemoryManager) {frame : ℕ} (h : kFrameCount ≤ frame) :
    m.getBit frame = none := by
  have hline : ¬ frame / kBitsPerMapLine < kMapLines := by
    rw [lineIndex_lt_iff]; omega
  unfold getBit
  rw [dif_neg hline]

/-- `m'` is `m` after the bits of `frames` were set to `b`. -/
structure Assigned (m : BitmapMemoryManager) (frames : List ℕ) (b : Bool)
    (m' : BitmapMemoryManager) : Prop where
  rangeBegin : m'.rangeBegin = m.rangeBegin
  rangeEnd : m'.rangeEnd = m.rangeEnd
  bit : ∀ k, m'.bit k = if k ∈ frames then b else m.bit k

theorem Assigned.bit_true {m m' : BitmapMemoryManager} {frames : List ℕ}
    (h : Assigned m frames true m') (k : ℕ) :
    m'.bit k = true ↔ m.bit k = true ∨ k ∈ frames := by
  rw [h.bit]
  by_cases hk : k ∈ frames <;> simp [hk]

theorem Assigned.bit_false {m m' : BitmapMemoryManager} {frames : List ℕ}
    (h : Assigned m frames false m') (k : ℕ) :
    m'.bit k = true ↔ m.bit k = true ∧ k ∉ frames := by
  rw [h.bit]
  by_cases hk : k ∈ frames <;> simp [hk]

theorem setBit_eq_some (m : BitmapMemoryManager) {frame : ℕ} (b : Bool)
    (h : frame < kFrameCount) :
    ∃ m', m.setBit frame b = some m' ∧ Assigned m [frame] b m' := by
  have hline := (lineIndex_lt_iff frame).mpr h
  have hbit : frame % kBitsPerMapLine < kBitsPerMapLine := Nat.mod_lt _ (by decide)
  unfold setBit
  rw [dif_pos hline]
  refine ⟨_, rfl, rfl, rfl, fun k => ?_⟩
  simp only [List.mem_singleton]
  apply PackedBitmap.test_update m.allocMap hline
  intro j
  cases b with
  | true => exact PackedBitmap.getLsbD_or_one_shiftLeft _ hbit j
  | false => exact PackedBitmap.getLsbD_and_not_one_shiftLeft _ _ j

theorem setBit_eq_none (m : BitmapMemoryManager) {frame : ℕ} (b : Bool)
    (h : kFrameCount ≤ frame) : m.setBit frame b = none := by
  have hline : ¬ frame / kBitsPerMapLine < kMapLines := by
    rw [lineIndex_lt_iff]; omega
  unfold setBit
  rw [dif_neg hline]

/-! ## Loops of `SetBit` -/

/-- A loop of `SetBit` over frames that all have a bit. -/
theorem foldlM_setBit_eq_some (m : BitmapMemoryManager) (b : Bool) (frames : List ℕ)
    (h : ∀ f ∈ frames, f < kFrameCount) :
    ∃ m', frames.foldlM (fun m f => setBit m f b) m = some m' ∧ Assigned m frames b m' := by
  induction frames generalizing m with
  | nil => exact ⟨m, rfl, rfl, rfl, fun k => by simp⟩
  | cons f frames ih =>
    obtain ⟨m₁, hm₁, hset⟩ := setBit_eq_some m b (h f List.mem_cons_self)
    obtain ⟨m', hm', hrest⟩ := ih m₁ (fun g hg => h g (List.mem_cons_of_mem _ hg))
    refine ⟨m', ?_, ?_, ?_, fun k => ?_⟩
    · rw [List.foldlM_cons, hm₁]
      exact hm'
    · rw [hrest.rangeBegin, hset.rangeBegin]
    · rw [hrest.rangeEnd, hset.rangeEnd]
    · rw [hrest.bit, hset.bit]
      by_cases hk : k ∈ frames <;> simp [hk]

/-- A loop of `SetBit` over frames one of which has no bit. -/
theorem foldlM_setBit_eq_none (m : BitmapMemoryManager) (b : Bool) (frames : List ℕ)
    (h : ∃ f ∈ frames, kFrameCount ≤ f) :
    frames.foldlM (fun m f => setBit m f b) m = none := by
  induction frames generalizing m with
  | nil =>
    obtain ⟨f, hf, _⟩ := h
    exact absurd hf List.not_mem_nil
  | cons f frames ih =>
    rw [List.foldlM_cons]
    by_cases hf : kFrameCount ≤ f
    · rw [setBit_eq_none m b hf]
      rfl
    · obtain ⟨m₁, hm₁, _⟩ := setBit_eq_some m b (Nat.lt_of_not_le hf)
      rw [hm₁]
      -- the first frame has a bit, so the one without is in the tail
      apply ih m₁
      obtain ⟨g, hg, hle⟩ := h
      rcases List.mem_cons.mp hg with heq | hmem
      · exact absurd (heq ▸ hle) hf
      · exact ⟨g, hmem, hle⟩

/-- `MarkAllocated` is a loop of `SetBit` over the frames of the block. -/
theorem markAllocated_eq (m : BitmapMemoryManager) {s n : ℕ} (h : s + n ≤ 2 ^ 64) :
    m.markAllocated s n = (List.range' s n).foldlM (fun m f => setBit m f true) m := by
  unfold markAllocated
  rw [List.range'_eq_map_range, List.foldlM_map]
  -- below `s + n` the reduction to 64 bits of the source's sum does nothing
  have hbody : ∀ (l : List ℕ) (m : BitmapMemoryManager), (∀ i ∈ l, i < n) →
      l.foldlM (fun m i => setBit m (sizeT (s + i)) true) m
        = l.foldlM (fun m i => setBit m (s + i) true) m := by
    intro l
    induction l with
    | nil => intro m _; rfl
    | cons i l ih =>
      intro m hl
      have hi := hl i List.mem_cons_self
      rw [List.foldlM_cons, List.foldlM_cons, sizeT_of_lt (by omega)]
      have htail : ∀ m : BitmapMemoryManager,
          l.foldlM (fun m i => setBit m (sizeT (s + i)) true) m
            = l.foldlM (fun m i => setBit m (s + i) true) m :=
        fun m => ih m fun j hj => hl j (List.mem_cons_of_mem _ hj)
      simp only [htail]
  exact hbody (List.range n) m fun i hi => List.mem_range.mp hi

theorem markAllocated_eq_some (m : BitmapMemoryManager) {s n : ℕ} (h : s + n ≤ kFrameCount) :
    ∃ m', m.markAllocated s n = some m' ∧ Assigned m (List.range' s n) true m' := by
  have hlt := kFrameCount_lt_sizeT
  rw [markAllocated_eq m (by omega)]
  apply foldlM_setBit_eq_some m true
  intro f hf
  have := List.mem_range'_1.mp hf
  omega

theorem markAllocated_eq_none (m : BitmapMemoryManager) {s n : ℕ} (hn : 0 < n)
    (hwrap : s + n ≤ 2 ^ 64) (h : kFrameCount < s + n) : m.markAllocated s n = none := by
  rw [markAllocated_eq m hwrap]
  -- the last frame of the block is past the map
  have hlast : s + n - 1 ∈ List.range' s n := by
    rw [List.mem_range'_1]
    omega
  exact foldlM_setBit_eq_none m true _ ⟨s + n - 1, hlast, by omega⟩

theorem markAllocated_zero (m : BitmapMemoryManager) (s : ℕ) : m.markAllocated s 0 = some m :=
  rfl

theorem free_eq_some (m : BitmapMemoryManager) {s n : ℕ} (h : s + n ≤ kFrameCount) :
    ∃ m', m.free s n = some (.kSuccess, m') ∧ Assigned m (List.range' s n) false m' := by
  have hlt := kFrameCount_lt_sizeT
  have hlen : sizeT (s + n) - s = n := by
    rw [sizeT_of_lt (by omega)]; omega
  unfold free
  rw [hlen]
  have hin : ∀ f ∈ List.range' s n, f < kFrameCount := by
    intro f hf
    have := List.mem_range'_1.mp hf
    omega
  obtain ⟨m', hm', hset⟩ := foldlM_setBit_eq_some m false _ hin
  exact ⟨m', by simp only [hm', Option.map_some], hset⟩

/-! ## The search of `Allocate` -/

/-- The counter values `[i, j)` of the inner loop found frames that are inside the range,
have a bit, and are clear. -/
def Passed (m : BitmapMemoryManager) (s i j : ℕ) : Prop :=
  ∀ k, i ≤ k → k < j → k + s < m.rangeEnd ∧ k + s < kFrameCount ∧ m.bit (k + s) = false

theorem Passed.refl (m : BitmapMemoryManager) (s i : ℕ) : m.Passed s i i := by
  intro k h1 h2
  omega

theorem Passed.step {m : BitmapMemoryManager} {s i j : ℕ} (h : m.Passed s (i + 1) j)
    (hend : i + s < m.rangeEnd) (hlt : i + s < kFrameCount) (hbit : m.bit (i + s) = false) :
    m.Passed s i j := by
  intro k h1 h2
  by_cases hk : k = i
  · rw [hk]; exact ⟨hend, hlt, hbit⟩
  · exact h k (by omega) h2

/-- What each way to leave the inner loop says about the frames it looked at; `none` is an
access past `alloc_map_`. -/
def ProbeResult (m : BitmapMemoryManager) (n s i : ℕ) : Option Probe → Prop
  | none => ∃ j, i ≤ j ∧ j < n ∧ m.Passed s i j ∧ j + s < m.rangeEnd ∧ kFrameCount ≤ j + s
  | some .noEnoughMemory => ∃ j, i ≤ j ∧ j < n ∧ m.Passed s i j ∧ m.rangeEnd ≤ j + s
  | some (.inUse j) => i ≤ j ∧ j < n ∧ m.Passed s i j ∧ j + s < m.rangeEnd ∧
      j + s < kFrameCount ∧ m.bit (j + s) = true
  | some .fits => m.Passed s i n

/-- One clear frame in front of the frames a later part of the loop looked at. -/
theorem ProbeResult.step {m : BitmapMemoryManager} {n s i : ℕ} {r : Option Probe}
    (h : m.ProbeResult n s (i + 1) r) (hend : i + s < m.rangeEnd) (hlt : i + s < kFrameCount)
    (hbit : m.bit (i + s) = false) : m.ProbeResult n s i r := by
  cases r with
  | none =>
    obtain ⟨j, hij, hjn, hpass, h'⟩ := h
    exact ⟨j, by omega, hjn, hpass.step hend hlt hbit, h'⟩
  | some r =>
    cases r with
    | noEnoughMemory =>
      obtain ⟨j, hij, hjn, hpass, h'⟩ := h
      exact ⟨j, by omega, hjn, hpass.step hend hlt hbit, h'⟩
    | inUse j =>
      obtain ⟨hij, hjn, hpass, h'⟩ := h
      exact ⟨by omega, hjn, hpass.step hend hlt hbit, h'⟩
    | fits => exact Passed.step h hend hlt hbit

theorem probe_spec (m : BitmapMemoryManager) (n s i : ℕ) :
    m.ProbeResult n s i (m.probe n s i) := by
  -- a bit is read only below the end of the bitmap, so a failed read means that the end is passed
  induction i using probe.induct m n s with
  | case1 i hi hend =>
    rw [probe, if_pos hi, if_pos hend]
    exact ⟨i, le_refl i, hi, Passed.refl m s i, hend⟩
  | case2 i hi hend hbit =>
    rw [probe, if_pos hi, if_neg hend, hbit]
    have hge : kFrameCount ≤ i + s := by
      by_contra hlt
      rw [getBit_eq_some m (Nat.lt_of_not_le hlt)] at hbit
      cases hbit
    exact ⟨i, le_refl i, hi, Passed.refl m s i, Nat.lt_of_not_le hend, hge⟩
  | case3 i hi hend hbit =>
    rw [probe, if_pos hi, if_neg hend, hbit]
    have hlt : i + s < kFrameCount := by
      by_contra hge
      rw [getBit_eq_none m (Nat.le_of_not_lt hge)] at hbit
      cases hbit
    rw [getBit_eq_some m hlt] at hbit
    exact ⟨le_refl i, hi, Passed.refl m s i, Nat.lt_of_not_le hend, hlt, Option.some.inj hbit⟩
  | case4 i hi hend hbit ih =>
    rw [probe, if_pos hi, if_neg hend, hbit]
    have hlt : i + s < kFrameCount := by
      by_contra hge
      rw [getBit_eq_none m (Nat.le_of_not_lt hge)] at hbit
      cases hbit
    rw [getBit_eq_some m hlt] at hbit
    exact ih.step (Nat.lt_of_not_le hend) hlt (Option.some.inj hbit)
  | case5 i hi =>
    rw [probe, if_neg hi]
    intro k h1 h2
    omega

/-- `n` frames from `s` lie in the range and are all clear. -/
def Fits (m : BitmapMemoryManager) (n s : ℕ) : Prop :=
  m.rangeBegin ≤ s ∧ s + n ≤ m.rangeEnd ∧ ∀ k, s ≤ k → k < s + n → m.bit k = false

/-- `Allocate` from a start below which nothing fits: it takes the least place that fits
and marks it, or reports that there is none and changes nothing. -/
theorem allocateFrom_spec (m : BitmapMemoryManager) (hend : m.rangeEnd ≤ kFrameCount)
    {n : ℕ} (hn : 0 < n) (s : ℕ) (hbegin : m.rangeBegin ≤ s)
    (hbelow : ∀ s', m.Fits n s' → s ≤ s') :
    (∃ s' m', m.allocateFrom n s = some (⟨s', .kSuccess⟩, m') ∧
      IsLeast {s | m.Fits n s} s' ∧ Assigned m (List.range' s' n) true m') ∨
    ((∀ s, ¬ m.Fits n s) ∧
      m.allocateFrom n s = some (⟨kNullFrame, .kNoEnoughMemory⟩, m)) := by
  induction s using allocateFrom.induct m n with
  | case1 s hprobe =>
    have hspec := probe_spec m n s 0
    rw [hprobe] at hspec
    obtain ⟨j, _, _, _, hlt, hge⟩ := hspec
    omega
  | case2 s hprobe =>
    have hspec := probe_spec m n s 0
    rw [hprobe] at hspec
    obtain ⟨j, _, hjn, _, hge⟩ := hspec
    right
    refine ⟨fun s' hfit => ?_, ?_⟩
    · have := hbelow s' hfit
      have := hfit.2.1
      omega
    · rw [allocateFrom, hprobe]
  | case3 s hprobe =>
    have hspec := probe_spec m n s 0
    rw [hprobe] at hspec
    have hfits : m.Fits n s := by
      -- the frame looked at last is the one that bounds the whole block
      have hlast := hspec (n - 1) (by omega) (by omega)
      refine ⟨hbegin, by omega, fun k h1 h2 => ?_⟩
      have := (hspec (k - s) (by omega) (by omega)).2.2
      rwa [Nat.sub_add_cancel h1] at this
    have hin : s + n ≤ kFrameCount := le_trans hfits.2.1 hend
    obtain ⟨m', hm', hset⟩ := markAllocated_eq_some m hin
    left
    refine ⟨s, m', ?_, ⟨hfits, hbelow⟩, hset⟩
    rw [allocateFrom, hprobe, hm']
    rfl
  | case4 s j hprobe ih =>
    have hspec := probe_spec m n s 0
    rw [hprobe] at hspec
    obtain ⟨_, hjn, _, _, _, hbit⟩ := hspec
    rw [allocateFrom, hprobe]
    apply ih (by omega)
    intro s' hfit
    -- a place at or before the frame in use would contain it
    by_contra hlt
    have hs' := hbelow s' hfit
    have := hfit.2.2 (j + s) (by omega) (by omega)
    rw [hbit] at this
    cases this

/-- `Allocate` is an exact first-fit search. -/
theorem allocate_spec (m : BitmapMemoryManager) (hend : m.rangeEnd ≤ kFrameCount)
    {n : ℕ} (hn : 0 < n) :
    (∃ s m', m.allocate n = some (⟨s, .kSuccess⟩, m') ∧
      IsLeast {s | m.Fits n s} s ∧ Assigned m (List.range' s n) true m') ∨
    ((∀ s, ¬ m.Fits n s) ∧ m.allocate n = some (⟨kNullFrame, .kNoEnoughMemory⟩, m)) :=
  allocateFrom_spec m hend hn m.rangeBegin (le_refl _) fun _ hfit => hfit.1

/-- `Allocate` always returns. Where `n` clear frames of the range follow one another it returns
the least place where they do and sets exactly their bits, and everywhere else
`kNoEnoughMemory`, with the manager as it was. -/
theorem allocate_firstFit (m : BitmapMemoryManager) (hend : m.rangeEnd ≤ kFrameCount)
    {n : ℕ} (hn : 0 < n) :
    ((∃ s, m.Fits n s) → ∃ s m', m.allocate n = some (⟨s, .kSuccess⟩, m') ∧ m.Fits n s ∧
      (∀ s', m.Fits n s' → s ≤ s') ∧
      (∀ k, m'.bit k = true ↔ m.bit k = true ∨ s ≤ k ∧ k < s + n) ∧
      m'.rangeBegin = m.rangeBegin ∧ m'.rangeEnd = m.rangeEnd) ∧
    ((¬ ∃ s, m.Fits n s) → m.allocate n = some (⟨kNullFrame, .kNoEnoughMemory⟩, m)) := by
  rcases allocate_spec m hend hn with ⟨s, m', hcall, hleast, hset⟩ | ⟨hnone, hcall⟩
  · refine ⟨fun _ => ⟨s, m', hcall, hleast.1, fun s' hfit => hleast.2 hfit, fun k => ?_,
      hset.rangeBegin, hset.rangeEnd⟩, fun hno => absurd ⟨s, hleast.1⟩ hno⟩
    rw [hset.bit_true, List.mem_range'_1]
  · exact ⟨fun ⟨s, hfit⟩ => absurd hfit (hnone s), fun _ => hcall⟩

/-- The frames 0, 2 and 5 of a range of eight are in use. -/
def fragmented : BitmapMemoryManager := ⟨fun line => if line.val = 0 then 0x25#64 else 0#64, 0, 8⟩

theorem bit_fragmented : ∀ k < 8, fragmented.bit k = decide (k = 0 ∨ k = 2 ∨ k = 5) := by
  decide +kernel

/-- The search passes the frames in use and the gap of one frame between them. -/
theorem allocate_firstFit_fragmented :
    ∃ m', fragmented.allocate 2 = some (⟨3, .kSuccess⟩, m') ∧
      m'.bit 1 = false ∧ m'.bit 2 = true ∧ m'.bit 3 = true ∧ m'.bit 4 = true ∧
      m'.bit 6 = false := by
  have hfit : fragmented.Fits 2 3 := by
    refine ⟨by decide, by decide, fun k hlow hhigh => ?_⟩
    rw [bit_fragmented k (by omega), decide_eq_false (by omega)]
  obtain ⟨s, m', hcall, hfits, hleast, hbit, _⟩ :=
    (allocate_firstFit fragmented (by decide) (by decide : 0 < 2)).1 ⟨3, hfit⟩
  obtain rfl : s = 3 := by
    have hle : s ≤ 3 := hleast 3 hfit
    -- each of the places before contains a frame in use
    by_contra hne
    have hused : ∀ k, s ≤ k → k < s + 2 → ¬ (k = 0 ∨ k = 2 ∨ k = 5) := fun k hlow hhigh => by
      have hclear := hfits.2.2 k hlow hhigh
      rw [bit_fragmented k (by omega)] at hclear
      exact of_decide_eq_false hclear
    have h0 := hused 0
    have h2 := hused 2
    omega
  refine ⟨m', hcall, ?_, (hbit 2).mpr (.inl ?_), (hbit 3).mpr (.inr ⟨by omega, by omega⟩),
    (hbit 4).mpr (.inr ⟨by omega, by omega⟩), ?_⟩
  · rw [← Bool.not_eq_true, hbit 1, bit_fragmented 1 (by omega)]
    decide
  · rw [bit_fragmented 2 (by omega)]
    decide
  · rw [← Bool.not_eq_true, hbit 6, bit_fragmented 6 (by omega)]
    decide

/-- A request for no frame succeeds at the start of the range and marks nothing. -/
theorem allocate_zero (m : BitmapMemoryManager) :
    m.allocate 0 = some (⟨m.rangeBegin, .kSuccess⟩, m) := by
  have hprobe : m.probe 0 m.rangeBegin 0 = some .fits := by
    rw [probe, if_neg (Nat.lt_irrefl 0)]
  rw [allocate, allocateFrom, hprobe]
  rfl

end BitmapMemoryManager
end TommyOS
