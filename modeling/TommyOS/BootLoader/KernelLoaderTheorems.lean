import TommyOS.BootLoader.KernelLoader
import Mathlib.Algebra.Order.Group.Nat
import Mathlib.Data.List.Basic
import Mathlib.Data.List.Pairwise

/-!
# The segments of the kernel are in place after loading

The two loops see the same program headers, because the copy does not touch the file. The
range is the span of the segments, and the log of the copy is, segment after segment, the
bytes of the file and the zeros behind them.
-/

namespace TommyOS.BootLoader

open WriteLog

/-! ## What an image is -/

/-- The program headers. -/
def phdrs (mem : Memory) (ehdr : ℕ) : List Elf64Phdr :=
  (List.range (ePhnum mem ehdr)).map fun i =>
    readPhdr mem (uint64 (ehdr + ePhoff mem ehdr) + sizeofPhdr * i)

/-- The `PT_LOAD` entries. -/
def loads (mem : Memory) (ehdr : ℕ) : List Elf64Phdr :=
  (phdrs mem ehdr).filter fun phdr => phdr.pType = PT_LOAD

/-- The addresses of a segment. -/
def Elf64Phdr.Covers (phdr : Elf64Phdr) (a : ℕ) : Prop :=
  phdr.pVaddr ≤ a ∧ a < phdr.pVaddr + phdr.pMemsz

/-- An ELF64 image in a buffer of `size` bytes: the headers and the file ranges are in the
buffer, the segments are disjoint and do not wrap, and the buffer is apart from their span. -/
structure IsImage (mem : Memory) (ehdr size : ℕ) : Prop where
  buffer : ehdr + size ≤ 2 ^ 64
  header : 64 ≤ size
  phentsize : ePhentsize mem ehdr = sizeofPhdr
  table : ePhoff mem ehdr + sizeofPhdr * ePhnum mem ehdr ≤ size
  load : loads mem ehdr ≠ []
  filesz_le : ∀ phdr ∈ loads mem ehdr, phdr.pFilesz ≤ phdr.pMemsz
  noWrap : ∀ phdr ∈ loads mem ehdr, phdr.pVaddr + phdr.pMemsz < 2 ^ 64
  disjoint : (loads mem ehdr).Pairwise fun p q => ∀ a, p.Covers a → ¬ q.Covers a
  fileRange : ∀ phdr ∈ loads mem ehdr, phdr.pOffset + phdr.pFilesz ≤ size
  apart : ∀ a, ehdr ≤ a → a < ehdr + size →
    (∀ phdr ∈ loads mem ehdr, a < phdr.pVaddr) ∨
      ∀ phdr ∈ loads mem ehdr, phdr.pVaddr + phdr.pMemsz ≤ a

theorem uint64_of_lt {n : ℕ} (h : n < 2 ^ 64) : uint64 n = n := Nat.mod_eq_of_lt h

/-! ## The file does not change -/

/-- The bytes of the buffer are the same. -/
def SameFile (ehdr size : ℕ) (mem mem' : Memory) : Prop :=
  ∀ a, ehdr ≤ a → a < ehdr + size → mem' a = mem a

section SameFile

variable {mem mem' : Memory} {ehdr size : ℕ}

/-- A number in the buffer is the same before and after. -/
theorem readLE_sameFile (hbuffer : ehdr + size ≤ 2 ^ 64) (hsame : SameFile ehdr size mem mem') :
    ∀ {n addr : ℕ}, ehdr ≤ addr → addr + n ≤ ehdr + size →
      readLE mem' addr n = readLE mem addr n := by
  intro n
  induction n with
  | zero => intro addr _ _; rfl
  | succ n ih =>
    intro addr hlow hhigh
    unfold readLE
    rw [uint64_of_lt (by omega), hsame addr hlow (by omega), ih (by omega) (by omega)]

theorem readPhdr_sameFile (hbuffer : ehdr + size ≤ 2 ^ 64) (hsame : SameFile ehdr size mem mem')
    {addr : ℕ} (hlow : ehdr ≤ addr) (hhigh : addr + sizeofPhdr ≤ ehdr + size) :
    readPhdr mem' addr = readPhdr mem addr := by
  unfold sizeofPhdr at hhigh
  unfold readPhdr
  rw [readLE_sameFile hbuffer hsame (by omega) (by omega),
    readLE_sameFile hbuffer hsame (by omega) (by omega),
    readLE_sameFile hbuffer hsame (by omega) (by omega),
    readLE_sameFile hbuffer hsame (by omega) (by omega),
    readLE_sameFile hbuffer hsame (by omega) (by omega)]

end SameFile

/-- A number of `n` bytes. -/
theorem readLE_lt (mem : Memory) : ∀ n addr, readLE mem addr n < 256 ^ n := by
  intro n
  induction n with
  | zero => intro addr; exact Nat.one_pos
  | succ n ih =>
    intro addr
    have hbyte := (mem (uint64 addr)).isLt
    have hrest := ih (addr + 1)
    unfold readLE
    rw [Nat.pow_succ]
    omega

/-! ## The loop goes over the program headers -/

/-- The loops find the same program headers in both memories. -/
structure SameHeaders (ehdr : ℕ) (mem mem' : Memory) : Prop where
  num : ePhnum mem' ehdr = ePhnum mem ehdr
  phdr : ∀ i < ePhnum mem ehdr,
    readPhdr mem' (uint64 (ehdr + ePhoff mem ehdr) + sizeofPhdr * i) =
      readPhdr mem (uint64 (ehdr + ePhoff mem ehdr) + sizeofPhdr * i)

theorem SameHeaders.refl (ehdr : ℕ) (mem : Memory) : SameHeaders ehdr mem mem :=
  ⟨rfl, fun _ _ => rfl⟩

/-- The headers are in the buffer. -/
theorem IsImage.sameHeaders {mem mem' : Memory} {ehdr size : ℕ} (himage : IsImage mem ehdr size)
    (hfile : SameFile ehdr size mem mem') : SameHeaders ehdr mem mem' := by
  have hbuffer := himage.buffer
  have hheader := himage.header
  have htable := himage.table
  unfold sizeofPhdr at htable
  refine ⟨readLE_sameFile hbuffer hfile (by omega) (by omega), fun i hi => ?_⟩
  have hmul : 56 * i + 56 ≤ 56 * ePhnum mem ehdr := by omega
  rw [uint64_of_lt (by omega)]
  apply readPhdr_sameFile hbuffer hfile
  · omega
  · unfold sizeofPhdr
    omega

/-- A loop that leaves the headers alone goes over those that are there when it starts. -/
theorem phdrLoop_eq_foldl {σ : Type*} {memory : σ → Memory} {body : Elf64Phdr → σ → σ}
    {mem : Memory} {ehdr : ℕ} {P : σ → Prop}
    (hsame : ∀ s, P s → SameHeaders ehdr mem (memory s))
    (hbody : ∀ phdr ∈ phdrs mem ehdr, ∀ s, P s → P (body phdr s)) {s : σ} (hs : P s) :
    phdrLoop memory body ehdr (uint64 (ehdr + ePhoff mem ehdr)) (2 ^ 16) 0 s =
      (phdrs mem ehdr).foldl (fun s phdr => body phdr s) s := by
  -- from iteration `i` on, with enough fuel for the rest
  have hfrom : ∀ k i fuel s, P s → i + k = ePhnum mem ehdr → k < fuel →
      phdrLoop memory body ehdr (uint64 (ehdr + ePhoff mem ehdr)) fuel i s =
        ((List.range' i k).map fun i =>
          readPhdr mem (uint64 (ehdr + ePhoff mem ehdr) + sizeofPhdr * i)).foldl
            (fun s phdr => body phdr s) s := by
    intro k
    induction k with
    | zero =>
      intro i fuel s hs hk hfuel
      obtain ⟨fuel, rfl⟩ := Nat.exists_eq_succ_of_ne_zero (Nat.ne_of_gt hfuel)
      unfold phdrLoop
      rw [(hsame s hs).num, if_neg (by omega)]
      rfl
    | succ k ih =>
      intro i fuel s hs hk hfuel
      obtain ⟨fuel, rfl⟩ := Nat.exists_eq_succ_of_ne_zero (Nat.ne_of_gt (Nat.zero_lt_of_lt hfuel))
      have hi : i < ePhnum mem ehdr := by omega
      have hmem : readPhdr mem (uint64 (ehdr + ePhoff mem ehdr) + sizeofPhdr * i) ∈
          phdrs mem ehdr :=
        List.mem_map.mpr ⟨i, List.mem_range.mpr hi, rfl⟩
      unfold phdrLoop
      rw [(hsame s hs).num, if_pos hi, (hsame s hs).phdr i hi,
        ih (i + 1) fuel _ (hbody _ hmem s hs) (by omega) (by omega), List.range'_succ,
        List.map_cons, List.foldl_cons]
  have hfuel : ePhnum mem ehdr < 2 ^ 16 := readLE_lt mem 2 (ehdr + 56)
  unfold phdrs
  rw [List.range_eq_range']
  exact hfrom _ 0 _ s hs (Nat.zero_add _) hfuel

/-! ## The range -/

/-- The least start and the greatest end of some segments. -/
structure IsSpan (l : List Elf64Phdr) (range : ℕ × ℕ) : Prop where
  first_le : ∀ phdr ∈ l, range.1 ≤ phdr.pVaddr
  first_mem : ∃ phdr ∈ l, range.1 = phdr.pVaddr
  le_last : ∀ phdr ∈ l, phdr.pVaddr + phdr.pMemsz ≤ range.2
  last_mem : ∃ phdr ∈ l, range.2 = phdr.pVaddr + phdr.pMemsz

/-- The range so far, from a range with which the loop was started. -/
theorem foldl_range {l : List Elf64Phdr}
    (hwrap : ∀ phdr ∈ l, phdr.pVaddr + phdr.pMemsz < 2 ^ 64) :
    ∀ init : ℕ × ℕ,
      let range := l.foldl (fun r phdr =>
        (min r.1 phdr.pVaddr, max r.2 (uint64 (phdr.pVaddr + phdr.pMemsz)))) init
      (range.1 ≤ init.1 ∧ ∀ phdr ∈ l, range.1 ≤ phdr.pVaddr) ∧
      (range.1 = init.1 ∨ ∃ phdr ∈ l, range.1 = phdr.pVaddr) ∧
      (init.2 ≤ range.2 ∧ ∀ phdr ∈ l, phdr.pVaddr + phdr.pMemsz ≤ range.2) ∧
      (range.2 = init.2 ∨ ∃ phdr ∈ l, range.2 = phdr.pVaddr + phdr.pMemsz) := by
  induction l with
  | nil =>
    intro init
    exact ⟨⟨Nat.le_refl _, by simp⟩, .inl rfl, ⟨Nat.le_refl _, by simp⟩, .inl rfl⟩
  | cons phdr l ih =>
    intro init
    obtain ⟨⟨hfirst, hfirst'⟩, hmin, ⟨hlast, hlast'⟩, hmax⟩ := ih
      (fun q hq => hwrap q (List.mem_cons_of_mem _ hq))
      (min init.1 phdr.pVaddr, max init.2 (uint64 (phdr.pVaddr + phdr.pMemsz)))
    -- no segment ends beyond the address space, so the sum that the loop compares does not wrap
    have hend := uint64_of_lt (hwrap phdr List.mem_cons_self)
    rw [List.foldl_cons]
    generalize l.foldl _ _ = range at hfirst hfirst' hmin hlast hlast' hmax ⊢
    simp only [hend] at hfirst hmin hlast hmax
    refine ⟨⟨Nat.le_trans hfirst (Nat.min_le_left _ _), ?_⟩, ?_,
      ⟨Nat.le_trans (Nat.le_max_left _ _) hlast, ?_⟩, ?_⟩
    · rw [List.forall_mem_cons]
      exact ⟨Nat.le_trans hfirst (Nat.min_le_right _ _), hfirst'⟩
    -- the minimum over the rest is attained there, or it is the one the rest started from
    · rcases hmin with h | ⟨q, hq, h⟩
      · rcases Nat.le_total init.1 phdr.pVaddr with hle | hle
        · exact .inl (h.trans (Nat.min_eq_left hle))
        · exact .inr ⟨phdr, List.mem_cons_self, h.trans (Nat.min_eq_right hle)⟩
      · exact .inr ⟨q, List.mem_cons_of_mem _ hq, h⟩
    · rw [List.forall_mem_cons]
      exact ⟨Nat.le_trans (Nat.le_max_right _ _) hlast, hlast'⟩
    · rcases hmax with h | ⟨q, hq, h⟩
      · rcases Nat.le_total init.2 (phdr.pVaddr + phdr.pMemsz) with hle | hle
        · exact .inr ⟨phdr, List.mem_cons_self, h.trans (Nat.max_eq_right hle)⟩
        · exact .inl (h.trans (Nat.max_eq_left hle))
      · exact .inr ⟨q, List.mem_cons_of_mem _ hq, h⟩

/-- The range of the first loop, wherever the segments lie. -/
theorem calcLoadAddressRange_isSpan {mem : Memory} {ehdr : ℕ} (hload : loads mem ehdr ≠ [])
    (hwrap : ∀ phdr ∈ loads mem ehdr, phdr.pVaddr + phdr.pMemsz < 2 ^ 64) :
    IsSpan (loads mem ehdr) (calcLoadAddressRange mem ehdr) := by
  have hloop : calcLoadAddressRange mem ehdr = (loads mem ehdr).foldl (fun r phdr =>
      (min r.1 phdr.pVaddr, max r.2 (uint64 (phdr.pVaddr + phdr.pMemsz)))) (2 ^ 64 - 1, 0) := by
    unfold calcLoadAddressRange loads
    rw [phdrLoop_eq_foldl (P := fun _ => True) (fun _ _ => SameHeaders.refl ehdr mem)
      (fun _ _ _ _ => trivial) trivial, List.foldl_filter]
    congr 1
    funext r phdr
    by_cases h : phdr.pType = PT_LOAD
    · simp [extendRange, h]
    · simp [extendRange, h]
  obtain ⟨⟨-, hfirst⟩, hmin, ⟨-, hlast⟩, hmax⟩ := foldl_range hwrap (2 ^ 64 - 1, 0)
  rw [← hloop] at hfirst hmin hlast hmax
  obtain ⟨some, hsome⟩ := List.exists_mem_of_ne_nil _ hload
  have hsomeWrap := hwrap some hsome
  have hfirst' := hfirst some hsome
  have hlast' := hlast some hsome
  refine ⟨hfirst, ?_, hlast, ?_⟩
  · rcases hmin with h | h
    · exact ⟨some, hsome, by rw [h] at hfirst' ⊢; simp only at hfirst' ⊢; omega⟩
    · exact h
  · rcases hmax with h | h
    · exact ⟨some, hsome, by rw [h] at hlast' ⊢; simp only at hlast' ⊢; omega⟩
    · exact h

/-! ## The log of the copy -/

/-- The bytes of a segment: those of the file, then zeros. -/
def segmentByte (mem : Memory) (ehdr : ℕ) (phdr : Elf64Phdr) (i : ℕ) : BitVec 8 :=
  if i < phdr.pFilesz then mem (ehdr + phdr.pOffset + i) else 0#8

/-- The writes that place a segment. -/
def segmentLog (mem : Memory) (ehdr : ℕ) (phdr : Elf64Phdr) : List (ℕ × BitVec 8) :=
  (List.range phdr.pMemsz).map fun i => (phdr.pVaddr + i, segmentByte mem ehdr phdr i)

/-- A write of a segment, by its offset in the segment. -/
theorem mem_segmentLog {mem : Memory} {ehdr : ℕ} {phdr : Elf64Phdr} {w : ℕ × BitVec 8} :
    w ∈ segmentLog mem ehdr phdr ↔
      phdr.Covers w.1 ∧ w.2 = segmentByte mem ehdr phdr (w.1 - phdr.pVaddr) := by
  unfold segmentLog Elf64Phdr.Covers
  rw [List.mem_map]
  constructor
  · rintro ⟨i, hi, rfl⟩
    have hlt := List.mem_range.mp hi
    simp only [Nat.add_sub_cancel_left]
    exact ⟨⟨Nat.le_add_right _ _, by omega⟩, trivial⟩
  · rintro ⟨⟨hlow, hhigh⟩, hvalue⟩
    refine ⟨w.1 - phdr.pVaddr, List.mem_range.mpr (by omega), ?_⟩
    rw [← hvalue, Nat.add_sub_cancel' hlow]

theorem LoadState.write_write (s : LoadState) (l₁ l₂ : List (ℕ × BitVec 8)) :
    (s.write l₁).write l₂ = s.write (l₁ ++ l₂) := by
  unfold LoadState.write store
  rw [List.foldl_append, List.append_assoc]

theorem LoadState.write_nil (s : LoadState) : s.write [] = s := by
  unfold LoadState.write
  rw [List.append_nil]
  rfl

section Image

variable {mem : Memory} {ehdr size : ℕ} (himage : IsImage mem ehdr size)

include himage

/-- The copy and the zero fill together write the segment. -/
theorem copyLoadSegment_eq {phdr : Elf64Phdr} (hmem : phdr ∈ loads mem ehdr) {s : LoadState}
    (hs : SameFile ehdr size mem s.memory) :
    copyLoadSegment ehdr phdr s = s.write (segmentLog mem ehdr phdr) := by
  have hbuffer := himage.buffer
  have hfilesz := himage.filesz_le phdr hmem
  have hwrap := himage.noWrap phdr hmem
  have hrange := himage.fileRange phdr hmem
  -- the subtraction of the source does not wrap, as a segment is at least as long as its file part
  have hremain : uint64 (phdr.pMemsz + 2 ^ 64 - phdr.pFilesz) = phdr.pMemsz - phdr.pFilesz := by
    unfold uint64
    omega
  -- the bytes of the file part are read from the file, which no write has changed
  have hcopy : copyMem phdr.pVaddr (uint64 (ehdr + phdr.pOffset)) phdr.pFilesz s =
      s.write ((List.range phdr.pFilesz).map fun i =>
        (phdr.pVaddr + i, segmentByte mem ehdr phdr i)) := by
    unfold copyMem
    congr 1
    refine List.map_congr_left fun i hi => ?_
    have hlt := List.mem_range.mp hi
    have hsource : uint64 (uint64 (ehdr + phdr.pOffset) + i) = ehdr + phdr.pOffset + i := by
      rw [uint64_of_lt (n := ehdr + phdr.pOffset) (by omega), uint64_of_lt (by omega)]
    rw [uint64_of_lt (by omega), hsource, hs _ (by omega) (by omega)]
    unfold segmentByte
    rw [if_pos hlt]
  have hset : ∀ s : LoadState, setMem (uint64 (phdr.pVaddr + phdr.pFilesz))
      (phdr.pMemsz - phdr.pFilesz) 0#8 s =
      s.write ((List.range' phdr.pFilesz (phdr.pMemsz - phdr.pFilesz)).map fun i =>
        (phdr.pVaddr + i, segmentByte mem ehdr phdr i)) := by
    intro s
    unfold setMem
    rw [List.range'_eq_map_range, List.map_map]
    congr 1
    refine List.map_congr_left fun i hi => ?_
    have hlt := List.mem_range.mp hi
    show _ = (phdr.pVaddr + (phdr.pFilesz + i), segmentByte mem ehdr phdr (phdr.pFilesz + i))
    unfold segmentByte
    rw [uint64_of_lt (n := phdr.pVaddr + phdr.pFilesz) (by omega), uint64_of_lt (by omega),
      if_neg (by omega), Nat.add_assoc]
  -- the offsets of the segment are those of the file part and then those of the zero fill
  have hsplit : List.range phdr.pMemsz =
      List.range phdr.pFilesz ++ List.range' phdr.pFilesz (phdr.pMemsz - phdr.pFilesz) := by
    have happend := List.range'_append_1 (s := 0) (m := phdr.pFilesz)
      (n := phdr.pMemsz - phdr.pFilesz)
    rw [Nat.zero_add, Nat.add_sub_cancel' hfilesz] at happend
    rw [List.range_eq_range', List.range_eq_range']
    exact happend.symm
  have htype : phdr.pType = PT_LOAD := of_decide_eq_true (List.mem_filter.mp hmem).2
  unfold copyLoadSegment segmentLog
  rw [if_neg (not_not.mpr htype)]
  simp only [hremain, hcopy]
  rw [hsplit, List.map_append, ← LoadState.write_write]
  -- `SetMem` is only called for a fill that is not empty
  by_cases hzero : phdr.pMemsz - phdr.pFilesz > 0
  · rw [if_pos hzero, hset]
  · rw [if_neg hzero, Nat.eq_zero_of_not_pos hzero, List.range'_zero, List.map_nil,
      LoadState.write_nil]

/-- A segment is apart from the file. -/
theorem sameFile_write {phdr : Elf64Phdr} (hmem : phdr ∈ loads mem ehdr) {s : LoadState}
    (hs : SameFile ehdr size mem s.memory) :
    SameFile ehdr size mem (s.write (segmentLog mem ehdr phdr)).memory := by
  intro a hlow hhigh
  have hnone : lastWrite (segmentLog mem ehdr phdr) a = none := by
    rw [lastWrite_eq_none_iff]
    intro w hw heq
    obtain ⟨⟨hstart, hend⟩, -⟩ := mem_segmentLog.mp hw
    rcases himage.apart a hlow hhigh with h | h
    · have := h phdr hmem
      omega
    · have := h phdr hmem
      omega
  show store s.memory (segmentLog mem ehdr phdr) a = mem a
  rw [store_apply, hnone, Option.getD_none, hs a hlow hhigh]

/-- The copy writes the segments one after the other. -/
theorem copyLoadSegments_eq :
    copyLoadSegments mem ehdr =
      LoadState.write ⟨mem, []⟩ ((loads mem ehdr).flatMap (segmentLog mem ehdr)) := by
  -- the entries that are segments, from a state with the file in place
  have hfold : ∀ (l : List Elf64Phdr) (s : LoadState),
      (∀ phdr ∈ l, phdr.pType = PT_LOAD → phdr ∈ loads mem ehdr) →
      SameFile ehdr size mem s.memory →
      l.foldl (fun s phdr => copyLoadSegment ehdr phdr s) s =
        s.write ((l.filter fun phdr => phdr.pType = PT_LOAD).flatMap (segmentLog mem ehdr)) := by
    intro l
    induction l with
    | nil => intro s _ _; exact (LoadState.write_nil s).symm
    | cons phdr l ih =>
      intro s hl hs
      have hrest := fun q hq => hl q (List.mem_cons_of_mem phdr hq)
      rw [List.foldl_cons]
      by_cases htype : phdr.pType = PT_LOAD
      · have hphdr := hl phdr List.mem_cons_self htype
        rw [copyLoadSegment_eq himage hphdr hs, ih _ hrest (sameFile_write himage hphdr hs),
          LoadState.write_write, List.filter_cons_of_pos (by simpa using htype), List.flatMap_cons]
      · rw [copyLoadSegment, if_pos htype, ih _ hrest hs,
          List.filter_cons_of_neg (by simpa using htype)]
  have hload : ∀ phdr ∈ phdrs mem ehdr, phdr.pType = PT_LOAD → phdr ∈ loads mem ehdr :=
    fun phdr h htype => List.mem_filter.mpr ⟨h, decide_eq_true htype⟩
  have hstart : SameFile ehdr size mem (LoadState.mk mem []).memory := fun _ _ _ => rfl
  have hbody : ∀ phdr ∈ phdrs mem ehdr, ∀ s : LoadState, SameFile ehdr size mem s.memory →
      SameFile ehdr size mem (copyLoadSegment ehdr phdr s).memory := by
    intro phdr hphdr s hs
    by_cases htype : phdr.pType = PT_LOAD
    · rw [copyLoadSegment_eq himage (hload phdr hphdr htype) hs]
      exact sameFile_write himage (hload phdr hphdr htype) hs
    · rw [copyLoadSegment, if_pos htype]
      exact hs
  unfold copyLoadSegments
  exact (phdrLoop_eq_foldl (P := fun s : LoadState => SameFile ehdr size mem s.memory)
    (fun _ hs => himage.sameHeaders hs) hbody hstart).trans (hfold _ _ hload hstart)

end Image

/-- The segments are disjoint. -/
theorem covers_unique {mem : Memory} {ehdr size : ℕ} (himage : IsImage mem ehdr size)
    {p q : Elf64Phdr} {a : ℕ} (hp : p ∈ loads mem ehdr) (hq : q ∈ loads mem ehdr)
    (hpa : p.Covers a) (hqa : q.Covers a) : p = q := by
  have hsymm : Std.Symm fun p q : Elf64Phdr => ∀ a, p.Covers a → ¬ q.Covers a :=
    ⟨fun p q h a hq hp => h a hp hq⟩
  by_contra hne
  exact himage.disjoint.forall hp hq hne a hpa hqa

section Image

variable {mem : Memory} {ehdr size : ℕ} (himage : IsImage mem ehdr size)

include himage

/-- A write of the copy is to a segment. -/
theorem mem_writes_copyLoadSegments {w : ℕ × BitVec 8} :
    w ∈ (copyLoadSegments mem ehdr).writes ↔
      ∃ phdr ∈ loads mem ehdr, w ∈ segmentLog mem ehdr phdr := by
  rw [copyLoadSegments_eq himage]
  show w ∈ [] ++ (loads mem ehdr).flatMap (segmentLog mem ehdr) ↔ _
  rw [List.nil_append, List.mem_flatMap]

/-- What is in memory behind the copy, by the last write to the address. -/
theorem memory_copyLoadSegments (a : ℕ) :
    (copyLoadSegments mem ehdr).memory a =
      (lastWrite ((loads mem ehdr).flatMap (segmentLog mem ehdr)) a).getD (mem a) := by
  rw [copyLoadSegments_eq himage]
  exact store_apply mem _ a

theorem memory_copyLoadSegments_of_covers {phdr : Elf64Phdr} (hphdr : phdr ∈ loads mem ehdr)
    {a : ℕ} (hcovers : phdr.Covers a) :
    (copyLoadSegments mem ehdr).memory a = segmentByte mem ehdr phdr (a - phdr.pVaddr) := by
  have hvalue : lastWrite ((loads mem ehdr).flatMap (segmentLog mem ehdr)) a =
      some (segmentByte mem ehdr phdr (a - phdr.pVaddr)) := by
    apply lastWrite_eq_some_of_unique
    · exact List.mem_flatMap.mpr ⟨phdr, hphdr, mem_segmentLog.mpr ⟨hcovers, rfl⟩⟩
    · -- no other segment writes here
      intro v hv
      obtain ⟨q, hq, hw⟩ := List.mem_flatMap.mp hv
      obtain ⟨hqcovers, hqvalue⟩ := mem_segmentLog.mp hw
      rw [← covers_unique himage hq hphdr hqcovers hcovers]
      exact hqvalue
  rw [memory_copyLoadSegments himage, hvalue, Option.getD_some]

theorem memory_copyLoadSegments_of_not_covers {a : ℕ}
    (ha : ∀ phdr ∈ loads mem ehdr, ¬ phdr.Covers a) :
    (copyLoadSegments mem ehdr).memory a = mem a := by
  have hnone : lastWrite ((loads mem ehdr).flatMap (segmentLog mem ehdr)) a = none := by
    rw [lastWrite_eq_none_iff]
    intro w hw heq
    obtain ⟨phdr, hphdr, hw'⟩ := List.mem_flatMap.mp hw
    obtain ⟨hcovers, -⟩ := mem_segmentLog.mp hw'
    rw [heq] at hcovers
    exact ha phdr hphdr hcovers
  rw [memory_copyLoadSegments himage, hnone, Option.getD_none]

end Image

/-! ## Loading -/

/-- The kernel is in place: the segments hold their bytes, the other bytes are as before, the
writes are inside the pages, and the range is exact. -/
structure KernelLoaded (mem : Memory) (ehdr : ℕ) (range : ℕ × ℕ) (s : LoadState) : Prop where
  span : IsSpan (loads mem ehdr) range
  segments : ∀ phdr ∈ loads mem ehdr, ∀ i, i < phdr.pMemsz →
    s.memory (phdr.pVaddr + i) =
      if i < phdr.pFilesz then mem (ehdr + phdr.pOffset + i) else 0#8
  unchanged : ∀ a, (∀ phdr ∈ loads mem ehdr, ¬ phdr.Covers a) → s.memory a = mem a
  inside : ∀ w ∈ s.writes, range.1 ≤ w.1 ∧ w.1 < range.1 + numPages range * 4096

/-- The pages reach to the end of the range when rounding up does not wrap, and there are
none when it does. -/
theorem numPages_spec {range : ℕ × ℕ} (hle : range.1 ≤ range.2) (hlt : range.2 < 2 ^ 64) :
    (range.2 - range.1 + 0xfff < 2 ^ 64 → range.2 ≤ range.1 + numPages range * 4096) ∧
      (2 ^ 64 ≤ range.2 - range.1 + 0xfff → numPages range = 0) := by
  unfold numPages uint64
  have hspan : (range.2 + 2 ^ 64 - range.1) % 2 ^ 64 = range.2 - range.1 := by omega
  rw [hspan]
  constructor
  · intro h
    rw [Nat.mod_eq_of_lt h]
    omega
  · intro h
    omega

section Loaded

variable {mem : Memory} {ehdr size : ℕ} (himage : IsImage mem ehdr size)

include himage

/-- The range of an image does not wrap around. -/
theorem calcLoadAddressRange_bounds :
    (calcLoadAddressRange mem ehdr).1 ≤ (calcLoadAddressRange mem ehdr).2 ∧
      (calcLoadAddressRange mem ehdr).2 < 2 ^ 64 := by
  have hspan := calcLoadAddressRange_isSpan himage.load himage.noWrap
  obtain ⟨first, hfirst, hstart⟩ := hspan.first_mem
  obtain ⟨last, hlast, hend⟩ := hspan.last_mem
  have hle := hspan.le_last first hfirst
  have hlt := himage.noWrap last hlast
  omega

/-- An image is loaded into its pages when there are enough of them, or nothing to write. -/
theorem kernelLoaded_of_room
    (hroom : (∀ p ∈ loads mem ehdr, ∀ q ∈ loads mem ehdr,
        p.pVaddr + p.pMemsz + 0xfff < 2 ^ 64 + q.pVaddr) ∨
      ∀ p ∈ loads mem ehdr, p.pMemsz = 0) :
    KernelLoaded mem ehdr (calcLoadAddressRange mem ehdr) (copyLoadSegments mem ehdr) := by
  have hspan := calcLoadAddressRange_isSpan himage.load himage.noWrap
  obtain ⟨hle, hlt⟩ := calcLoadAddressRange_bounds himage
  generalize calcLoadAddressRange mem ehdr = range at hspan hle hlt ⊢
  obtain ⟨hfit, -⟩ := numPages_spec hle hlt
  obtain ⟨first, hfirst, hstart⟩ := hspan.first_mem
  obtain ⟨last, hlast, hend⟩ := hspan.last_mem
  refine ⟨hspan, fun p hp i hi => ?_,
    fun a ha => memory_copyLoadSegments_of_not_covers himage ha, fun w hw => ?_⟩
  · have hcovers : p.Covers (p.pVaddr + i) := ⟨Nat.le_add_right _ _, by omega⟩
    rw [memory_copyLoadSegments_of_covers himage hp hcovers, Nat.add_sub_cancel_left]
    rfl
  · obtain ⟨p, hp, hw'⟩ := (mem_writes_copyLoadSegments himage).mp hw
    obtain ⟨⟨hlow, hhigh⟩, -⟩ := mem_segmentLog.mp hw'
    have hlow' := hspan.first_le p hp
    have hhigh' := hspan.le_last p hp
    -- a byte of a segment lies inside the pages, unless there is no byte
    rcases hroom with hround | hempty
    · have hspan' := hround last hlast first hfirst
      have hpages := hfit (by omega)
      omega
    · have := hempty p hp
      omega

end Loaded

/-- **When loading reproduces the image inside the pages.** Everything about the bytes and the
range holds for every image; the writes are inside the pages, too, if and only if the size of
the range can be rounded up to pages in 64 bits, or all segments are empty. -/
theorem kernelLoaded_iff (mem : Memory) (ehdr size : ℕ) (himage : IsImage mem ehdr size) :
    KernelLoaded mem ehdr (calcLoadAddressRange mem ehdr) (copyLoadSegments mem ehdr) ↔
      (∀ p ∈ loads mem ehdr, ∀ q ∈ loads mem ehdr,
          p.pVaddr + p.pMemsz + 0xfff < 2 ^ 64 + q.pVaddr) ∨
        ∀ p ∈ loads mem ehdr, p.pMemsz = 0 := by
  refine ⟨fun h => ?_, kernelLoaded_of_room himage⟩
  have hspan := calcLoadAddressRange_isSpan himage.load himage.noWrap
  obtain ⟨hle, hlt⟩ := calcLoadAddressRange_bounds himage
  generalize calcLoadAddressRange mem ehdr = range at h hspan hle hlt
  obtain ⟨-, hnone⟩ := numPages_spec hle hlt
  -- the two ends of the range are the bounds of two segments
  by_cases hround : range.2 - range.1 + 0xfff < 2 ^ 64
  · left
    intro p hp q hq
    have := hspan.le_last p hp
    have := hspan.first_le q hq
    omega
  · -- there are no pages, so there are no writes
    right
    intro p hp
    by_contra hpos
    have hcovers : p.Covers p.pVaddr := ⟨Nat.le_refl _, by omega⟩
    have hwrite : (p.pVaddr, segmentByte mem ehdr p (p.pVaddr - p.pVaddr)) ∈
        segmentLog mem ehdr p := mem_segmentLog.mpr ⟨hcovers, rfl⟩
    obtain ⟨hlow, hhigh⟩ := h.inside _ ((mem_writes_copyLoadSegments himage).mpr ⟨p, hp, hwrite⟩)
    rw [hnone (Nat.le_of_not_lt hround)] at hhigh
    simp only at hlow hhigh
    omega

/-- An image at 0x100 with two segments of one zero byte, at 0x400 and at `2 ^ 64 - 2`. -/
def wideImage : Memory := fun a =>
  if a = 0x120 then 64#8
  else if a = 0x136 then 56#8
  else if a = 0x138 then 2#8
  else if a = 0x140 ∨ a = 0x168 then 1#8
  else if a = 0x151 then 4#8
  else if a = 0x178 ∨ a = 0x1a0 then 1#8
  else if a = 0x188 then 0xfe#8
  else if 0x189 ≤ a ∧ a < 0x190 then 0xff#8
  else 0#8

theorem loads_wideImage :
    loads wideImage 0x100 = [⟨1, 0, 0x400, 0, 1⟩, ⟨1, 0, 2 ^ 64 - 2, 0, 1⟩] := by
  decide +kernel

theorem wideImage_isImage : IsImage wideImage 0x100 176 := by
  constructor
  · decide
  · decide
  · decide +kernel
  · decide +kernel
  all_goals rw [loads_wideImage]
  · exact List.cons_ne_nil _ _
  · decide
  · decide
  · simp only [List.pairwise_cons, List.mem_singleton, forall_eq, List.not_mem_nil,
      false_implies, implies_true, List.Pairwise.nil, and_true]
    unfold Elf64Phdr.Covers
    intro a ha hb
    simp only at ha hb
    omega
  · decide
  · intro a hlow hhigh
    left
    simp only [List.forall_mem_cons, List.not_mem_nil, false_implies, implies_true, and_true]
    omega

theorem kernelLoaded_iff_wideImage :
    KernelLoaded wideImage 0x100 (calcLoadAddressRange wideImage 0x100)
        (copyLoadSegments wideImage 0x100) ↔
      (∀ p ∈ loads wideImage 0x100, ∀ q ∈ loads wideImage 0x100,
          p.pVaddr + p.pMemsz + 0xfff < 2 ^ 64 + q.pVaddr) ∨
        ∀ p ∈ loads wideImage 0x100, p.pMemsz = 0 :=
  kernelLoaded_iff wideImage 0x100 176 wideImage_isImage

/-- No page is asked for, and a byte is written at the first address. -/
theorem wideImage_outside :
    IsImage wideImage 0x100 176 ∧
      numPages (calcLoadAddressRange wideImage 0x100) = 0 ∧
      (0x400, 0#8) ∈ (copyLoadSegments wideImage 0x100).writes ∧
      ¬ KernelLoaded wideImage 0x100 (calcLoadAddressRange wideImage 0x100)
        (copyLoadSegments wideImage 0x100) := by
  have hpages : numPages (calcLoadAddressRange wideImage 0x100) = 0 := by decide +kernel
  have hwrite : (0x400, 0#8) ∈ (copyLoadSegments wideImage 0x100).writes := by decide +kernel
  refine ⟨wideImage_isImage, hpages, hwrite, fun h => ?_⟩
  obtain ⟨hlow, hhigh⟩ := h.inside _ hwrite
  rw [hpages] at hhigh
  omega

end TommyOS.BootLoader
