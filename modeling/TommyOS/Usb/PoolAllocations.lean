import TommyOS.Usb.PoolUsage

/-!
# Allocations that do not fit

What the functions that take something from the pool get from it. The arrays of the device manager
and the rings of the controller are checked; the scratchpad and the transfer rings are not.
-/

namespace TommyOS.Usb

open Alignment BumpAllocator

/-! ## Pools -/

/-- The coarsest boundary that is asked for. -/
def kCoarsest : ℕ := 65536

namespace MemoryPool

/-- The pool is somewhere in memory, and `alloc_ptr` in it, or behind it because of a request that
did not fit. -/
structure Sane (m : MemoryPool) : Prop where
  start : 0 < m.memoryPool.toNat
  low : m.memoryPool.toNat ≤ m.allocPtr.toNat
  high : m.allocPtr.toNat ≤ ceilTo m.poolEnd kCoarsest
  room : ceilTo m.poolEnd kCoarsest + 2 ^ 33 ≤ 2 ^ 64

/-- A pool far enough below the end of the address space is sane. -/
theorem sane_new {memoryPool : BitVec 64} (hstart : 0 < memoryPool.toNat)
    (hroom : memoryPool.toNat + 2 ^ 34 ≤ 2 ^ 64) : (new memoryPool).Sane := by
  have hend : (new memoryPool).poolEnd = memoryPool.toNat + 131072 := rfl
  have hle := le_ceilTo (n := (new memoryPool).poolEnd) (show 0 < kCoarsest by decide)
  have hlt := ceilTo_lt_add (n := (new memoryPool).poolEnd) (show 0 < kCoarsest by decide)
  rw [hend] at hle hlt
  unfold kCoarsest at hle hlt
  refine ⟨hstart, Nat.le_refl _, ?_, ?_⟩
  · show memoryPool.toNat ≤ _
    rw [hend, kCoarsest]
    omega
  · rw [hend, kCoarsest]
    omega

/-- What the driver asks for. -/
structure Served (size : BitVec 64) (alignment boundary : BitVec 32) : Prop where
  size : size.toNat ≤ 2 ^ 32
  aligned : IsAlignment alignment
  alignedLe : alignment.toNat ≤ kCoarsest
  bounded : IsAlignment boundary
  boundedLe : boundary.toNat ≤ kCoarsest

theorem dvd_ceilTo_coarsest {a : BitVec 32} {n : ℕ} (ha : IsAlignment a)
    (hle : a.toNat ≤ kCoarsest) (hpos : 0 < a.toNat) : a.toNat ∣ ceilTo n kCoarsest := by
  obtain ⟨k, hk⟩ := ha.exists_pow hpos
  rw [hk] at hle ⊢
  have hpow : kCoarsest = 2 ^ 16 := rfl
  rw [hpow] at hle ⊢
  have hexp : k ≤ 16 := (Nat.pow_le_pow_iff_right (by decide)).mp hle
  exact Nat.dvd_trans (Nat.pow_dvd_pow 2 hexp) (dvd_ceilTo n _)

/-- The request of a call, as numbers. -/
def request (size : BitVec 64) (alignment boundary : BitVec 32) : Request :=
  ⟨size.toNat, alignment.toNat, boundary.toNat⟩

variable {m : MemoryPool} {size : BitVec 64} {alignment boundary : BitVec 32}

/-- On a sane pool the alignment is that of the numbers. -/
theorem toNat_aligned (hm : m.Sane) (hr : Served size alignment boundary) :
    (m.aligned alignment).toNat = (request size alignment boundary).align m.allocPtr.toNat := by
  have hhigh := hm.high
  have hroom := hm.room
  have hle := hr.alignedLe
  unfold kCoarsest at hhigh hroom hle
  unfold aligned Request.align request
  by_cases hpos : 0 < alignment
  · obtain ⟨k, hk⟩ := hr.aligned.exists_pow hpos
    rw [if_pos hpos, if_pos (toNat_pos_of_pos hpos), toNat_ceil hk (by omega)]
  · rw [if_neg hpos, if_neg fun hnat => hpos (by rw [BitVec.lt_def]; exact hnat)]

theorem align_le_coarsest (hm : m.Sane) (hr : Served size alignment boundary) :
    (request size alignment boundary).align m.allocPtr.toNat ≤ ceilTo m.poolEnd kCoarsest :=
  Request.align_le _ hm.high fun hpos => dvd_ceilTo_coarsest hr.aligned hr.alignedLe hpos

theorem place_le_coarsest (hm : m.Sane) (hr : Served size alignment boundary) :
    (request size alignment boundary).place m.allocPtr.toNat ≤ ceilTo m.poolEnd kCoarsest :=
  Request.place_le _ hm.high (fun hpos => dvd_ceilTo_coarsest hr.aligned hr.alignedLe hpos)
    fun hpos => dvd_ceilTo_coarsest hr.bounded hr.boundedLe hpos

/-- So is the place of a block. -/
theorem toNat_placed_eq (hm : m.Sane) (hr : Served size alignment boundary) :
    (m.placed size alignment boundary).toNat =
      (request size alignment boundary).place m.allocPtr.toNat := by
  have hroom := hm.room
  have halign := align_le_coarsest hm hr
  have hsize := hr.size
  have hle := hr.boundedLe
  have haligned := toNat_aligned hm hr
  unfold kCoarsest at hroom halign hle
  unfold placed Request.place
  rw [← haligned] at halign ⊢
  by_cases hpos : 0 < boundary
  · obtain ⟨k, hk⟩ := hr.bounded.exists_pow hpos
    have hceil : (ceil (m.aligned alignment) boundary).toNat =
        ceilTo (m.aligned alignment).toNat boundary.toNat := toNat_ceil hk (by omega)
    have hsum : (m.aligned alignment + size).toNat =
        (m.aligned alignment).toNat + size.toNat := by
      rw [BitVec.toNat_add]
      exact Nat.mod_eq_of_lt (by omega)
    rw [if_pos hpos]
    simp only [BitVec.lt_def, hceil, hsum, request, toNat_pos_of_pos hpos, true_and]
    rw [apply_ite BitVec.toNat, hceil]
  · rw [if_neg hpos, if_neg fun hcross => hpos (by rw [BitVec.lt_def]; exact hcross.1)]

/-- No address wraps around. -/
theorem noWrap_of_sane (hm : m.Sane) (hr : Served size alignment boundary) :
    m.NoWrap size alignment boundary := by
  have hhigh := hm.high
  have hroom := hm.room
  have hend := le_ceilTo (n := m.poolEnd) (show 0 < kCoarsest by decide)
  have halign := align_le_coarsest hm hr
  have hplace := place_le_coarsest hm hr
  have hsize := hr.size
  have hle := hr.alignedLe
  have hle' := hr.boundedLe
  rw [← toNat_aligned hm hr] at halign
  rw [← toNat_placed_eq hm hr] at hplace
  unfold kCoarsest at *
  exact ⟨by omega, fun _ => by omega, fun _ => by omega, fun _ => by omega, by omega⟩

/-- `AllocMem` succeeds exactly when the request fits. -/
theorem allocMem_sane (hm : m.Sane) (hr : Served size alignment boundary) :
    ∃ m', m'.Sane ∧ m'.poolEnd = m.poolEnd ∧
      ((request size alignment boundary).place m.allocPtr.toNat + size.toNat ≤ m.poolEnd ∧
        (∃ p, p ≠ 0#64 ∧ m.allocMem size alignment boundary = (some p, m')) ∧
        m'.allocPtr.toNat =
          (request size alignment boundary).place m.allocPtr.toNat + size.toNat ∨
      ¬ (request size alignment boundary).place m.allocPtr.toNat + size.toNat ≤ m.poolEnd ∧
        m.allocMem size alignment boundary = (none, m')) := by
  have hw := noWrap_of_sane hm hr
  have heq := allocMem_eq hw
  have hplace := place_le_coarsest hm hr
  have hlow : m.memoryPool.toNat ≤ (request size alignment boundary).place m.allocPtr.toNat :=
    hm.low.trans (Request.le_place _)
  have hadd := toNat_placed_add hw
  have hend := le_ceilTo (n := m.poolEnd) (show 0 < kCoarsest by decide)
  have hstart := hm.start
  rw [toNat_placed_eq hm hr] at heq hadd
  -- in both cases the pointer has moved to the place, behind the block only if it is handed out
  by_cases hfits : (request size alignment boundary).place m.allocPtr.toNat + size.toNat ≤
      m.poolEnd
  · rw [if_neg (Nat.not_lt.mpr hfits)] at heq
    refine ⟨{ m with allocPtr := m.placed size alignment boundary + size },
      ⟨hstart, ?_, ?_, hm.room⟩, rfl, .inl ⟨hfits, ⟨_, ?_, heq⟩, hadd⟩⟩
    · show m.memoryPool.toNat ≤ (m.placed size alignment boundary + size).toNat
      rw [hadd]
      omega
    · show (m.placed size alignment boundary + size).toNat ≤ ceilTo m.poolEnd kCoarsest
      rw [hadd]
      omega
    -- the place is not before the pool, which does not start at 0
    · intro hzero
      have hplaced := toNat_placed_eq hm hr
      rw [hzero] at hplaced
      exact absurd hplaced (by rw [BitVec.toNat_zero]; omega)
  · rw [if_pos (Nat.not_le.mp hfits)] at heq
    refine ⟨{ m with allocPtr := m.placed size alignment boundary },
      ⟨hstart, ?_, ?_, hm.room⟩, rfl, .inr ⟨hfits, heq⟩⟩
    · show _ ≤ (m.placed size alignment boundary).toNat
      rw [toNat_placed_eq hm hr]
      exact hlow
    · show (m.placed size alignment boundary).toNat ≤ ceilTo m.poolEnd kCoarsest
      rw [toNat_placed_eq hm hr]
      exact hplace

/-- A pool stays sane. -/
theorem allocMem_keeps (hm : m.Sane) (hr : Served size alignment boundary) :
    ∃ p m', m.allocMem size alignment boundary = (p, m') ∧ m'.Sane := by
  obtain ⟨m', hsane, -, ⟨-, ⟨p, -, heq⟩, -⟩ | ⟨-, heq⟩⟩ := allocMem_sane hm hr
  · exact ⟨_, _, heq, hsane⟩
  · exact ⟨_, _, heq, hsane⟩

end MemoryPool

/-! ## Allocations of a call -/

namespace PoolLog

variable {s s' s'' : PoolLog} {r : Request} {rs rs' : List Request} {p buf tr : BitVec 64}
  {size : BitVec 64} {alignment boundary : BitVec 32}

/-- The end of the pool. -/
def limit (s : PoolLog) : ℕ := s.pool.poolEnd

/-- Where the next allocation starts. -/
def next (s : PoolLog) : ℕ := s.pool.allocPtr.toNat

/-- What an allocation does. -/
structure Allocated (s : PoolLog) (r : Request) (p : BitVec 64) (s' : PoolLog) : Prop where
  sane : s'.pool.Sane
  limit : s'.limit = s.limit
  uses : s'.uses = s.uses
  null : p = nullptr ↔ ¬ Fits s.limit s.next [r]
  exhausted : s'.exhausted = true ↔ s.exhausted = true ∨ p = nullptr
  next : p ≠ nullptr → s'.next = after s.next [r]

theorem allocMem_allocated (hs : s.pool.Sane) (hr : MemoryPool.Served size alignment boundary) :
    ∃ p s', s.allocMem size alignment boundary = (p, s') ∧
      Allocated s (MemoryPool.request size alignment boundary) p s' := by
  -- one request fits when its place and its size end inside the pool
  have hone : Fits s.limit s.next [MemoryPool.request size alignment boundary] ↔
      (MemoryPool.request size alignment boundary).place s.pool.allocPtr.toNat + size.toNat ≤
        s.pool.poolEnd := and_iff_left trivial
  obtain ⟨m', hsane, hend, ⟨hfits, ⟨p, hp, heq⟩, hnext⟩ | ⟨hnot, heq⟩⟩ :=
    MemoryPool.allocMem_sane hs hr
  · refine ⟨p, { s with pool := m' }, ?_, ?_⟩
    · simp only [allocMem, heq, Option.getD_some, Option.isNone_some, Bool.or_false]
    exact {
      sane := hsane
      limit := hend
      uses := rfl
      null := iff_of_false hp (not_not_intro (hone.mpr hfits))
      exhausted := (or_iff_left hp).symm
      next := fun _ => hnext }
  · refine ⟨nullptr, { s with pool := m', exhausted := true }, ?_, ?_⟩
    · simp only [allocMem, heq, Option.getD_none, Option.isNone_none, Bool.or_true]
    exact {
      sane := hsane
      limit := hend
      uses := rfl
      null := iff_of_true rfl fun hfits => hnot (hone.mp hfits)
      exhausted := iff_of_true rfl (.inr rfl)
      next := fun hp => absurd rfl hp }

/-- Pointers that were used before make no difference. -/
theorem Allocated.after_use (h : Allocated s r p s') (q : BitVec 64) :
    Allocated (s.use q) r p (s'.use q) where
  sane := h.sane
  limit := h.limit
  uses := congrArg (q :: ·) h.uses
  null := h.null
  exhausted := h.exhausted
  next := h.next

/-- The requests of a part of a call that uses what it gets without a check. -/
structure Took (s : PoolLog) (rs : List Request) (s' : PoolLog) : Prop where
  sane : s'.pool.Sane
  limit : s'.limit = s.limit
  null : nullptr ∈ s'.uses ↔ nullptr ∈ s.uses ∨ ¬ Fits s.limit s.next rs
  exhausted : s'.exhausted = true ↔ s.exhausted = true ∨ ¬ Fits s.limit s.next rs
  next : Fits s.limit s.next rs → s'.next = after s.next rs

/-- Nothing was taken. -/
theorem took_nil (hs : s.pool.Sane) : Took s [] s where
  sane := hs
  limit := rfl
  null := (or_iff_left (not_not_intro trivial)).symm
  exhausted := (or_iff_left (not_not_intro trivial)).symm
  next := fun _ => rfl

@[simp] theorem pool_use : (s.use p).pool = s.pool := rfl

theorem mem_use : nullptr ∈ (s.use p).uses ↔ p = nullptr ∨ nullptr ∈ s.uses := by
  unfold use
  rw [List.mem_cons, eq_comm]

/-- An allocation whose pointer is used. -/
theorem Allocated.use (h : Allocated s r p s') : Took s [r] (s'.use p) where
  sane := h.sane
  limit := h.limit
  null := by rw [mem_use, h.uses, h.null, or_comm]
  exhausted := by
    show s'.exhausted = true ↔ _
    rw [h.exhausted, h.null]
  next := fun hfits => h.next fun hp => h.null.mp hp hfits

theorem Took.congr (h : Took s rs s') (hpool : s''.pool = s'.pool)
    (hexhausted : s''.exhausted = s'.exhausted)
    (hnull : nullptr ∈ s''.uses ↔ nullptr ∈ s'.uses) : Took s rs s'' where
  sane := hpool ▸ h.sane
  limit := (congrArg MemoryPool.poolEnd hpool).trans h.limit
  null := hnull.trans h.null
  exhausted := by rw [hexhausted, h.exhausted]
  next := fun hfits => (congrArg (fun m => m.allocPtr.toNat) hpool).trans (h.next hfits)

/-- A pointer that is not null need not be used. -/
theorem Allocated.took (h : Allocated s r p s') (hp : p ≠ nullptr) : Took s [r] s' :=
  h.use.congr rfl rfl (mem_use.trans (or_iff_right hp)).symm

/-- A pointer that is not null, or another null pointer, makes no difference. -/
theorem Took.use (h : Took s rs s') (hp : p = nullptr → nullptr ∈ s'.uses) :
    Took s rs (s'.use p) :=
  h.congr rfl rfl (mem_use.trans (or_iff_right_of_imp hp))

/-- Two parts of a call, one after the other. -/
theorem Took.trans (h : Took s rs s') (h' : Took s' rs' s'') : Took s (rs ++ rs') s'' := by
  have hall : Fits s.limit s.next rs →
      (Fits s'.limit s'.next rs' ↔ Fits s.limit s.next (rs ++ rs')) := by
    intro hfits
    rw [fits_append, h.limit, h.next hfits, and_iff_right hfits]
  have hnot : ¬ Fits s.limit s.next rs → ¬ Fits s.limit s.next (rs ++ rs') :=
    fun hn hfits => hn (fits_append.mp hfits).1
  have hor : ∀ q : Prop, ((q ∨ ¬ Fits s.limit s.next rs) ∨ ¬ Fits s'.limit s'.next rs') ↔
      (q ∨ ¬ Fits s.limit s.next (rs ++ rs')) := by
    intro q
    by_cases hfits : Fits s.limit s.next rs
    · rw [hall hfits, or_iff_left (not_not_intro hfits)]
    · exact iff_of_true (.inl (.inr hfits)) (.inr (hnot hfits))
  exact {
    sane := h'.sane
    limit := h'.limit.trans h.limit
    null := by rw [h'.null, h.null, hor]
    exhausted := by rw [h'.exhausted, h.exhausted, hor]
    next := by
      intro hfits
      have hfirst := (fits_append.mp hfits).1
      rw [h'.next ((hall hfirst).mpr hfits), h.next hfirst, after_append] }

/-! ## Rings -/

/-- The alignment and the boundary of a ring. -/
theorem served_ring (size : BitVec 64) (hsize : size.toNat ≤ 2 ^ 32) :
    MemoryPool.Served size 64#32 0x10000#32 :=
  ⟨hsize, .inr ⟨6, rfl⟩, by decide, .inr ⟨16, rfl⟩, by decide⟩

/-- Those of an object. -/
theorem served_object (size : BitVec 64) (hsize : size.toNat ≤ 2 ^ 32) :
    MemoryPool.Served size 64#32 4096#32 :=
  ⟨hsize, .inr ⟨6, rfl⟩, by decide, .inr ⟨12, rfl⟩, by decide⟩

/-- The object of a transfer ring, and a buffer of 32 TRBs. -/
def ringRequest : Request := ⟨32, 64, 4096⟩
/-- The buffer of a ring. -/
def bufferRequest : Request := ⟨512, 64, 65536⟩

/-- A ring that has no buffer says so. -/
theorem ringInitialize_cases (hs : s.pool.Sane) :
    ∃ buf s', Allocated s bufferRequest buf s' ∧
      (buf = nullptr ∧ s.ringInitialize 32#64 = (.kNoEnoughMemory, buf, s') ∨
        buf ≠ nullptr ∧ s.ringInitialize 32#64 = (.kSuccess, buf, s'.use buf)) := by
  obtain ⟨buf, s', hcall, halloc⟩ := allocMem_allocated hs
    (served_ring (BitVec.ofNat 64 sizeofTRB * 32#64) (by decide))
  rw [ringInitialize, allocArray, hcall]
  refine ⟨buf, s', halloc, ?_⟩
  by_cases hbuf : buf = nullptr
  · exact .inl ⟨hbuf, if_pos hbuf⟩
  · exact .inr ⟨hbuf, if_neg hbuf⟩

/-- Neither the object nor its buffer is checked. -/
theorem setTransferRing_took (hs : s.pool.Sane) :
    Took s [ringRequest, bufferRequest] s.setTransferRing := by
  obtain ⟨tr, s₁, hobject, halloc⟩ :=
    allocMem_allocated hs (served_object (sizeofRing * 1#64) (by decide))
  rw [setTransferRing, allocTransferRing, allocArray, hobject]
  have hring : Took s [ringRequest] (s₁.use tr) := halloc.use
  by_cases htr : tr = nullptr
  · -- without the object the buffer is not asked for, and the null pointer is used
    rw [if_neg (not_not_intro htr)]
    have hnot : ¬ Fits s.limit s.next [ringRequest] := halloc.null.mp htr
    have hnot' : ¬ Fits s.limit s.next [ringRequest, bufferRequest] :=
      fun hfits => hnot ⟨hfits.1, trivial⟩
    have hused := hring.use (p := nullptr) fun _ => mem_use.mpr (.inl htr)
    exact {
      sane := hused.sane
      limit := hused.limit
      null := iff_of_true (hused.null.mpr (.inr hnot)) (.inr hnot')
      exhausted := iff_of_true (hused.exhausted.mpr (.inr hnot)) (.inr hnot')
      next := fun hfits => absurd hfits hnot' }
  · rw [if_pos htr]
    -- the buffer comes behind the object, and nobody looks at the error when there is none
    obtain ⟨buf, s₂, hbuffer, ⟨hbuf, hcall⟩ | ⟨hbuf, hcall⟩⟩ := ringInitialize_cases hring.sane
    · rw [hcall]
      refine (hring.trans hbuffer.use).congr rfl rfl ?_
      rw [mem_use, mem_use, mem_use, or_iff_right htr]
    · rw [hcall]
      exact ((hring.trans hbuffer.use).use fun hnull => absurd hnull htr).use
        fun hnull => absurd hnull hbuf

def endpointRequests : ℕ → List Request
  | 0 => []
  | n + 1 => endpointRequests n ++ [ringRequest, bufferRequest]

/-- The rings of `n` endpoints, by induction on `n`. -/
theorem endpointRings_took (hs : s.pool.Sane) (n : ℕ) :
    Took s (endpointRequests n) (s.endpointRings n) := by
  induction n with
  | zero => exact took_nil hs
  | succ n ih => exact ih.trans (setTransferRing_took ih.sane)

/-! ## `Controller::Initialize` -/

/-- An operation that checks what it gets. -/
structure Checked (s : PoolLog) (err : Error) (s' : PoolLog) : Prop where
  sane : s'.pool.Sane
  null : nullptr ∈ s'.uses ↔ nullptr ∈ s.uses
  exhausted : s'.exhausted = true → s.exhausted = true ∨ err.failed = true

/-- `EventRing::Initialize` returns an error instead of using a null pointer. -/
theorem eventRingInitialize_checked (hs : s.pool.Sane) :
    ∃ err s', s.eventRingInitialize 32#64 = (err, s') ∧ Checked s err s' := by
  obtain ⟨buf, s₁, hcall, halloc⟩ := allocMem_allocated hs
    (served_ring (BitVec.ofNat 64 sizeofTRB * 32#64) (by decide))
  rw [eventRingInitialize, allocArray, hcall]
  by_cases hbuf : buf = nullptr
  · refine ⟨_, _, if_pos hbuf, halloc.sane, ?_, fun _ => .inr rfl⟩
    rw [halloc.uses]
  · rw [if_neg hbuf]
    obtain ⟨erst, s₂, hcall', halloc'⟩ := allocMem_allocated (s := s₁.use buf) halloc.sane
      (served_ring (sizeofEventRingSegmentTableEntry * 1#64) (by decide))
    have huses : nullptr ∈ s₂.uses ↔ nullptr ∈ s.uses := by
      rw [halloc'.uses, mem_use, or_iff_right hbuf, halloc.uses]
    rw [eventRingTable, allocArray, hcall']
    by_cases herst : erst = nullptr
    · exact ⟨_, _, if_pos herst, halloc'.sane, huses, fun _ => .inr rfl⟩
    · refine ⟨_, _, if_neg herst, halloc'.sane, ?_, fun hfailed => .inl ?_⟩
      · rw [mem_use, mem_use, or_iff_right hbuf, or_iff_right herst, huses]
      · exact (halloc.exhausted.mp
          ((halloc'.exhausted.mp hfailed).resolve_right herst)).resolve_right hbuf

/-- So do both rings. -/
theorem initializeRings_checked (hs : s.pool.Sane) :
    ∃ err buf s', s.initializeRings = (err, buf, s') ∧ Checked s err s' := by
  obtain ⟨buf, s₁, halloc, ⟨hbuf, hcall⟩ | ⟨hbuf, hcall⟩⟩ := ringInitialize_cases hs
  · rw [initializeRings, hcall, if_pos (show Error.kNoEnoughMemory.failed = true from rfl)]
    refine ⟨_, _, _, rfl, halloc.sane, ?_, fun _ => .inr rfl⟩
    rw [halloc.uses]
  · obtain ⟨err, s₂, hcall', hchecked⟩ :=
      eventRingInitialize_checked (s := (s₁.use buf).use buf) halloc.sane
    rw [initializeRings, hcall, if_neg (show ¬ Error.kSuccess.failed = true from
      Bool.false_ne_true), hcall']
    refine ⟨_, _, _, rfl, hchecked.sane, ?_, fun hfailed => ?_⟩
    · rw [hchecked.null, mem_use, mem_use, or_iff_right hbuf, or_iff_right hbuf, halloc.uses]
    · exact (hchecked.exhausted hfailed).imp_left fun hbefore =>
        (halloc.exhausted.mp hbefore).resolve_right hbuf

/-- The two arrays of the device manager. -/
def devmgrRequests : List Request := [⟨72, 0, 0⟩, ⟨72, 64, 4096⟩]

/-- The device manager checks both of its arrays. -/
theorem devmgrInitialize_cases (hs : s.pool.Sane) :
    ∃ contexts s',
      ¬ Fits s.limit s.next devmgrRequests ∧ s'.pool.Sane ∧ s'.uses = s.uses ∧
        s.devmgrInitialize 8#64 = (.kNoEnoughMemory, contexts, s') ∨
      contexts ≠ nullptr ∧ Fits s.limit s.next devmgrRequests ∧ Took s devmgrRequests s' ∧
        s.devmgrInitialize 8#64 = (.kSuccess, contexts, s') := by
  have hserved : MemoryPool.Served (sizeofPointer * (8#64 + 1#64)) 0#32 0#32 :=
    ⟨by decide, .inl rfl, by decide, .inl rfl, by decide⟩
  obtain ⟨devices, s₁, hcall, halloc⟩ := allocMem_allocated hs hserved
  rw [devmgrInitialize, allocArray, hcall]
  by_cases hdevices : devices = nullptr
  · simp only [if_pos hdevices]
    have hnot : ¬ Fits s.limit s.next [⟨72, 0, 0⟩] := halloc.null.mp hdevices
    exact ⟨_, _, .inl ⟨fun hfits => hnot ⟨hfits.1, trivial⟩, halloc.sane, halloc.uses, rfl⟩⟩
  · obtain ⟨contexts, s₂, hcall', halloc'⟩ := allocMem_allocated (s := s₁) halloc.sane
      (served_object (sizeofPointer * (8#64 + 1#64)) (by decide))
    simp only [if_neg hdevices]
    rw [devmgrContexts, allocArray, hcall']
    -- the second array comes behind the first
    have hsecond : contexts = nullptr ↔
        ¬ Fits s.limit (after s.next [⟨72, 0, 0⟩]) [⟨72, 64, 4096⟩] := by
      have hnull := halloc'.null
      rw [halloc.limit, halloc.next hdevices] at hnull
      exact hnull
    by_cases hcontexts : contexts = nullptr
    · simp only [if_pos hcontexts]
      have hnot : ¬ Fits s.limit s.next ([⟨72, 0, 0⟩] ++ [⟨72, 64, 4096⟩]) :=
        fun hfits => hsecond.mp hcontexts (fits_append.mp hfits).2
      exact ⟨_, _, .inl ⟨hnot, halloc'.sane, halloc'.uses.trans halloc.uses, rfl⟩⟩
    · simp only [if_neg hcontexts]
      have hfirst : Fits s.limit s.next [⟨72, 0, 0⟩] :=
        not_not.mp fun hnot => hdevices (halloc.null.mpr hnot)
      have hfits : Fits s.limit s.next devmgrRequests :=
        fits_append.mpr ⟨hfirst, not_not.mp fun hnot => hcontexts (hsecond.mpr hnot)⟩
      have htook : Took s [⟨72, 0, 0⟩] (s₁.use devices) := halloc.use
      exact ⟨_, _, .inr ⟨hcontexts, hfits, htook.trans (halloc'.after_use devices).use, rfl⟩⟩

/-- A page, and the array of the scratchpad with its pages. -/
def pageRequest : Request := ⟨4096, 4096, 4096⟩

/-- The array and the pages of the scratchpad. -/
def scratchpadRequests (maxScratchpadBuffers : ℕ) : List Request :=
  if maxScratchpadBuffers = 0 then []
  else ⟨8 * maxScratchpadBuffers, 64, 4096⟩ :: List.replicate maxScratchpadBuffers pageRequest

theorem allocPage_allocated (hs : s.pool.Sane) :
    ∃ page s', s.allocMem 4096#64 4096#32 4096#32 = (page, s') ∧
      Allocated s pageRequest page s' := by
  have hrequest : MemoryPool.request 4096#64 4096#32 4096#32 = pageRequest := by decide
  rw [← hrequest]
  exact allocMem_allocated hs
    ⟨by decide, .inr ⟨12, rfl⟩, by decide, .inr ⟨12, rfl⟩, by decide⟩

/-- A page is stored whether it was allocated or not. -/
theorem scratchpadPage_took {arr : BitVec 64} (hs : s.pool.Sane) (harr : arr ≠ nullptr) :
    Took s [pageRequest] (s.scratchpadPage arr) := by
  obtain ⟨page, s', hcall, halloc⟩ := allocPage_allocated hs
  rw [scratchpadPage, hcall]
  refine halloc.use.congr rfl rfl ?_
  rw [mem_use, mem_use, mem_use, or_iff_right harr]

/-- By induction on the number of pages. -/
theorem scratchpadPages_took {arr : BitVec 64} (hs : s.pool.Sane) (harr : arr ≠ nullptr) (n : ℕ) :
    Took s (List.replicate n pageRequest) (s.scratchpadPages arr n) := by
  induction n with
  | zero => exact took_nil hs
  | succ n ih =>
    rw [List.replicate_succ']
    exact ih.trans (scratchpadPage_took ih.sane harr)

/-- Without the array the pages are stored at the null pointer, and nothing stops that. -/
theorem scratchpadPages_keeps (hs : s.pool.Sane) (arr : BitVec 64) (n : ℕ) :
    (s.scratchpadPages arr n).pool.Sane ∧ (s.scratchpadPages arr n).limit = s.limit ∧
      (s.exhausted = true → (s.scratchpadPages arr n).exhausted = true) := by
  induction n with
  | zero => exact ⟨hs, rfl, id⟩
  | succ n ih =>
    obtain ⟨hsane, hlimit, hexhausted⟩ := ih
    obtain ⟨page, s', hcall, halloc⟩ := allocPage_allocated hsane
    rw [scratchpadPages, scratchpadPage, hcall]
    exact ⟨halloc.sane, halloc.limit.trans hlimit,
      fun hbefore => halloc.exhausted.mpr (.inl (hexhausted hbefore))⟩

theorem allocScratchpad_allocated (hs : s.pool.Sane) (n : BitVec 16) :
    ∃ arr s', s.allocMem (sizeofPointer * n.setWidth 64) 64#32 4096#32 = (arr, s') ∧
      Allocated s ⟨8 * n.toNat, 64, 4096⟩ arr s' := by
  have hlt := n.isLt
  have hsize : (sizeofPointer * n.setWidth 64).toNat = 8 * n.toNat := by
    have hwide : (n.setWidth 64).toNat = n.toNat := by
      rw [BitVec.toNat_setWidth]
      exact Nat.mod_eq_of_lt (by omega)
    rw [BitVec.toNat_mul, hwide, show sizeofPointer.toNat = 8 from rfl]
    exact Nat.mod_eq_of_lt (by omega)
  have halloc := allocMem_allocated hs (served_object (sizeofPointer * n.setWidth 64)
    (by rw [hsize]; omega))
  rw [MemoryPool.request, hsize] at halloc
  exact halloc

/-- Neither the array nor a page is checked. -/
theorem scratchpad_took (hs : s.pool.Sane) (n : BitVec 16) :
    Took s (scratchpadRequests n.toNat) (s.scratchpad n) := by
  rw [scratchpad, scratchpadRequests]
  by_cases hn : 0#16 < n
  · have hpos : n.toNat ≠ 0 := Nat.ne_of_gt hn
    obtain ⟨arr, s₁, hcall, halloc⟩ := allocScratchpad_allocated hs n
    rw [if_pos hn, if_neg hpos, allocArray, hcall]
    by_cases harr : arr = nullptr
    · have hnot : ¬ Fits s.limit s.next [⟨8 * n.toNat, 64, 4096⟩] := halloc.null.mp harr
      have hnot' : ¬ Fits s.limit s.next
          (⟨8 * n.toNat, 64, 4096⟩ :: List.replicate n.toNat pageRequest) :=
        fun hfits => hnot ⟨hfits.1, trivial⟩
      obtain ⟨hsane, hlimit, hexhausted⟩ := scratchpadPages_keeps halloc.sane arr n.toNat
      exact {
        sane := hsane
        limit := hlimit.trans halloc.limit
        null := iff_of_true (mem_use.mpr (.inl harr)) (.inr hnot')
        exhausted := iff_of_true (hexhausted (halloc.exhausted.mpr (.inr harr))) (.inr hnot')
        next := fun hfits => absurd hfits hnot' }
    · exact ((halloc.took harr).trans (scratchpadPages_took halloc.sane harr n.toNat)).use
        fun hnull => absurd hnull harr
  · have hzero : n.toNat = 0 := Nat.eq_zero_of_not_pos hn
    rw [if_neg hn, if_pos hzero]
    exact took_nil hs

end PoolLog

end TommyOS.Usb
