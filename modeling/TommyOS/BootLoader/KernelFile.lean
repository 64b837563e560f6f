import TommyOS.BootLoader.EfiMemoryMap

/-!
# The kernel file

An ELF file as bytes, and what becomes of it when the boot loader reads it to any address and
copies its segments into pages that were free.
-/

namespace TommyOS.BootLoader

open ByteRecords

/-- A file alone in memory. -/
def fileMemory (file : List (BitVec 8)) : Memory := place (fun _ => 0#8) 0 file

/-- The segments of a file. -/
def segments (file : List (BitVec 8)) : List Elf64Phdr := loads (fileMemory file) 0

/-- `e_entry`. -/
def eEntry (file : List (BitVec 8)) : ℕ := readLE (fileMemory file) 24 8

/-- An ELF64 file: its headers and the file ranges of its segments are in it, and the segments are
disjoint and leave room to round up to pages. -/
structure IsElfFile (file : List (BitVec 8)) : Prop where
  header : 64 ≤ file.length
  phentsize : ePhentsize (fileMemory file) 0 = sizeofPhdr
  table : ePhoff (fileMemory file) 0 + sizeofPhdr * ePhnum (fileMemory file) 0 ≤ file.length
  load : segments file ≠ []
  filesz_le : ∀ phdr ∈ segments file, phdr.pFilesz ≤ phdr.pMemsz
  noWrap : ∀ phdr ∈ segments file, phdr.pVaddr + phdr.pMemsz + 0xfff < 2 ^ 64
  disjoint : (segments file).Pairwise fun p q => ∀ a, p.Covers a → ¬ q.Covers a
  fileRange : ∀ phdr ∈ segments file, phdr.pOffset + phdr.pFilesz ≤ file.length

/-! ## Where the file lies does not matter -/

section Read

variable {mem : Memory} {ehdr : ℕ} {file : List (BitVec 8)} (hfile : Holds mem ehdr file)
  (hend : ehdr + file.length ≤ 2 ^ 64)

include hfile hend

/-- Numbers in the file, wherever it was read to. -/
theorem readLE_file {off n : ℕ} (h : off + n ≤ file.length) :
    readLE mem (ehdr + off) n = readLE (fileMemory file) off n := by
  induction n generalizing off with
  | zero => rfl
  | succ n ih =>
    have hbyte : mem (ehdr + off) = fileMemory file off := by
      have hzero := (holds_place (fun _ => 0#8) 0 file).get (show off < file.length by omega)
      rw [Nat.zero_add] at hzero
      exact (hfile.get (by omega)).trans hzero.symm
    have hrest : readLE mem (ehdr + (off + 1)) n = readLE (fileMemory file) (off + 1) n :=
      ih (by omega)
    rw [← Nat.add_assoc] at hrest
    rw [readLE, readLE, uint64_of_lt (by omega), uint64_of_lt (by omega), hbyte, hrest]

theorem readPhdr_file {off : ℕ} (h : off + sizeofPhdr ≤ file.length) :
    readPhdr mem (ehdr + off) = readPhdr (fileMemory file) off := by
  unfold sizeofPhdr at h
  unfold readPhdr
  simp only [Nat.add_assoc]
  rw [readLE_file hfile hend (by omega), readLE_file hfile hend (by omega),
    readLE_file hfile hend (by omega), readLE_file hfile hend (by omega),
    readLE_file hfile hend (by omega)]

variable (helf : IsElfFile file)

include helf

/-- Where the table of program headers is in the file. -/
theorem ePhoff_file : ePhoff mem ehdr = ePhoff (fileMemory file) 0 := by
  have := helf.header
  exact readLE_file hfile hend (by omega)

theorem ePhnum_file : ePhnum mem ehdr = ePhnum (fileMemory file) 0 := by
  have := helf.header
  exact readLE_file hfile hend (by omega)

/-- The table does not start behind the file, so its address does not wrap. -/
theorem table_file : uint64 (ehdr + ePhoff mem ehdr) = ehdr + ePhoff (fileMemory file) 0 := by
  have htable := helf.table
  rw [ePhoff_file hfile hend helf]
  apply uint64_of_lt
  by_contra hwrap
  -- a table that ends where it starts has no segment
  have hnone : ePhnum (fileMemory file) 0 = 0 := by
    unfold sizeofPhdr at htable
    omega
  apply helf.load
  unfold segments loads phdrs
  rw [hnone]
  rfl

/-- The program headers do not depend on the address of the file. -/
theorem phdrs_file : phdrs mem ehdr = phdrs (fileMemory file) 0 := by
  have htable := helf.table
  have hzero := table_file (holds_place (fun _ => 0#8) 0 file) (by omega) helf
  unfold phdrs
  change uint64 (0 + ePhoff (fileMemory file) 0) = _ at hzero
  rw [ePhnum_file hfile hend helf, table_file hfile hend helf, hzero]
  apply List.map_congr_left
  intro i hi
  have hle : sizeofPhdr * (i + 1) ≤ sizeofPhdr * ePhnum (fileMemory file) 0 :=
    Nat.mul_le_mul_left _ (List.mem_range.mp hi)
  rw [Nat.mul_succ] at hle
  rw [Nat.zero_add, Nat.add_assoc]
  exact readPhdr_file hfile hend (by omega)

theorem loads_file : loads mem ehdr = segments file := by
  unfold segments loads
  rw [phdrs_file hfile hend helf]

end Read

/-! ## The pages -/

/-- The bytes of the pages that the boot loader asks for. -/
def InPages (mem : Memory) (ehdr a : ℕ) : Prop :=
  (calcLoadAddressRange mem ehdr).1 ≤ a ∧
    a < (calcLoadAddressRange mem ehdr).1 + numPages (calcLoadAddressRange mem ehdr) * 0x1000

section Pages

variable {mem : Memory} {ehdr : ℕ} {file : List (BitVec 8)} (hfile : Holds mem ehdr file)
  (hend : ehdr + file.length ≤ 2 ^ 64) (helf : IsElfFile file)

include hfile hend helf

/-- The range is that of the file, also where the segments lie over the buffer. -/
theorem range_isSpan : IsSpan (segments file) (calcLoadAddressRange mem ehdr) := by
  have hloads := loads_file hfile hend helf
  rw [← hloads]
  refine calcLoadAddressRange_isSpan ?_ fun phdr hphdr => ?_
  · rw [hloads]
    exact helf.load
  · have := helf.noWrap phdr (hloads ▸ hphdr)
    omega

/-- The pages that are asked for reach the end of the last segment. -/
theorem range_end_le_pages :
    (calcLoadAddressRange mem ehdr).2 ≤
      (calcLoadAddressRange mem ehdr).1 + numPages (calcLoadAddressRange mem ehdr) * 0x1000 := by
  have hspan := range_isSpan hfile hend helf
  obtain ⟨last, hlast, hlast'⟩ := hspan.last_mem
  have hwrap := helf.noWrap last hlast
  have hlow := hspan.first_le last hlast
  obtain ⟨hpages, -⟩ := @numPages_spec (calcLoadAddressRange mem ehdr) (by omega) (by omega)
  exact hpages (by omega)

/-- Every segment lies in the pages. -/
theorem inPages_of_covers {phdr : Elf64Phdr} (hphdr : phdr ∈ segments file) {a : ℕ}
    (ha : phdr.Covers a) : InPages mem ehdr a := by
  have hspan := range_isSpan hfile hend helf
  have hlow := hspan.first_le phdr hphdr
  have hhigh := hspan.le_last phdr hphdr
  have hpages := range_end_le_pages hfile hend helf
  obtain ⟨ha, ha'⟩ := ha
  exact ⟨by omega, by omega⟩

/-- Pages that were free are apart from the buffer, so the file is an image there. -/
theorem isImage_of_apart
    (hapart : ∀ a, InPages mem ehdr a → ¬ (ehdr ≤ a ∧ a < ehdr + file.length)) :
    IsImage mem ehdr file.length := by
  have hloads := loads_file hfile hend helf
  refine ⟨hend, helf.header, ?_, ?_, ?_, ?_, ?_, ?_, ?_, ?_⟩
  · have := helf.header
    exact (readLE_file hfile hend (by omega)).trans helf.phentsize
  · rw [ePhoff_file hfile hend helf, ePhnum_file hfile hend helf]
    exact helf.table
  · rw [hloads]
    exact helf.load
  · rw [hloads]
    exact helf.filesz_le
  · rw [hloads]
    intro p hp
    have := helf.noWrap p hp
    omega
  · rw [hloads]
    exact helf.disjoint
  · rw [hloads]
    exact helf.fileRange
  · intro a hlow hhigh
    rw [hloads]
    have hspan := range_isSpan hfile hend helf
    have hpages := range_end_le_pages hfile hend helf
    have hout : ¬ InPages mem ehdr a := fun h => hapart a h ⟨hlow, hhigh⟩
    unfold InPages at hout
    -- the address is in front of the pages or behind them, and so is each segment
    by_cases hfront : a < (calcLoadAddressRange mem ehdr).1
    · left
      intro p hp
      have := hspan.first_le p hp
      omega
    · right
      intro p hp
      have := hspan.le_last p hp
      omega

end Pages

/-! ## The kernel in memory -/

/-- The segments hold their bytes of the file, and zeros behind them. -/
def KernelInMemory (file : List (BitVec 8)) (memory : Memory) : Prop :=
  ∀ phdr ∈ segments file, ∀ i, i < phdr.pMemsz →
    memory (phdr.pVaddr + i) =
      if i < phdr.pFilesz then fileMemory file (phdr.pOffset + i) else 0#8

section Copy

variable {mem : Memory} {ehdr : ℕ} {file : List (BitVec 8)} (hfile : Holds mem ehdr file)
  (hend : ehdr + file.length ≤ 2 ^ 64) (helf : IsElfFile file)
  (hapart : ∀ a, InPages mem ehdr a → ¬ (ehdr ≤ a ∧ a < ehdr + file.length))

include hfile hend helf hapart

/-- The loader does what it should where the pages are apart from the file. -/
theorem kernelLoaded_of_apart :
    KernelLoaded mem ehdr (calcLoadAddressRange mem ehdr) (copyLoadSegments mem ehdr) := by
  apply kernelLoaded_of_room (isImage_of_apart hfile hend helf hapart)
  left
  intro p hp q hq
  rw [loads_file hfile hend helf] at hp
  have := helf.noWrap p hp
  omega

/-- The segments hold the bytes of the file, and zeros behind them. -/
theorem kernelInMemory_copyLoadSegments :
    KernelInMemory file (copyLoadSegments mem ehdr).memory := by
  intro phdr hphdr i hi
  have hsegments := (kernelLoaded_of_apart hfile hend helf hapart).segments
  rw [loads_file hfile hend helf] at hsegments
  rw [hsegments phdr hphdr i hi]
  by_cases hfilesz : i < phdr.pFilesz
  · have hrange := helf.fileRange phdr hphdr
    have hzero := (holds_place (fun _ => 0#8) 0 file).get
      (show phdr.pOffset + i < file.length by omega)
    have hbyte := hfile.get (show phdr.pOffset + i < file.length by omega)
    rw [Nat.zero_add] at hzero
    rw [if_pos hfilesz, if_pos hfilesz, Nat.add_assoc]
    exact hbyte.trans hzero.symm
  · rw [if_neg hfilesz, if_neg hfilesz]

/-- Memory outside the pages stays. -/
theorem copyLoadSegments_outside {a : ℕ} (ha : ¬ InPages mem ehdr a) :
    (copyLoadSegments mem ehdr).memory a = mem a := by
  apply (kernelLoaded_of_apart hfile hend helf hapart).unchanged
  intro phdr hphdr hcovers
  rw [loads_file hfile hend helf] at hphdr
  exact ha (inPages_of_covers hfile hend helf hphdr hcovers)

end Copy

/-- The kernel stays in memory when its pages do. -/
theorem KernelInMemory.congr {file : List (BitVec 8)} {memory memory' : Memory}
    (h : KernelInMemory file memory)
    (hsame : ∀ phdr ∈ segments file, ∀ a, phdr.Covers a → memory' a = memory a) :
    KernelInMemory file memory' := by
  intro phdr hphdr i hi
  rw [hsame phdr hphdr _ ⟨Nat.le_add_right _ _, Nat.add_lt_add_left hi _⟩]
  exact h phdr hphdr i hi

/-- What the boot loader reads 24 bytes behind the start of a segment is the entry point, if the
segment has the start of the file. -/
theorem readLE_entry {file : List (BitVec 8)} {memory : Memory} (h : KernelInMemory file memory)
    (helf : IsElfFile file) {phdr : Elf64Phdr} (hphdr : phdr ∈ segments file)
    (hoffset : phdr.pOffset = 0) (hfilesz : 32 ≤ phdr.pFilesz) :
    readLE memory (phdr.pVaddr + 24) 8 = eEntry file := by
  have hmemsz := helf.filesz_le phdr hphdr
  have hwrap := helf.noWrap phdr hphdr
  have hbytes : ∀ n off, off + n ≤ phdr.pFilesz →
      readLE memory (phdr.pVaddr + off) n = readLE (fileMemory file) off n := by
    intro n
    induction n with
    | zero => exact fun _ _ => rfl
    | succ n ih =>
      intro off hoff
      have hbyte := h phdr hphdr off (by omega)
      have hrest := ih (off + 1) (by omega)
      have hrange := helf.fileRange phdr hphdr
      rw [if_pos (by omega), hoffset, Nat.zero_add] at hbyte
      rw [← Nat.add_assoc] at hrest
      rw [readLE, readLE, uint64_of_lt (by omega), uint64_of_lt (by omega), hbyte, hrest]
  exact hbytes 8 24 (by omega)

end TommyOS.BootLoader
