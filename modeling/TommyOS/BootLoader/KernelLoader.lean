import TommyOS.Lib.WriteLog
import Mathlib.Algebra.Order.Group.Nat

/-!
# Loading the kernel

The part of the boot loader that places the segments of the kernel: the range the segments
span, the pages for it, and the copy. Memory is bytes at addresses; addresses and sizes are
`UINT64`, natural numbers below `2 ^ 64` whose results are reduced by `uint64`. The copy keeps
the log of its writes.
-/

namespace TommyOS.BootLoader

/-- Conversion of the result of an operation on `UINT64`. -/
def uint64 (n : ℕ) : ℕ := n % 2 ^ 64

abbrev Memory := ℕ → BitVec 8

/-- The little-endian number of some bytes at an address. -/
def readLE (mem : Memory) (addr : ℕ) : ℕ → ℕ
  | 0 => 0
  | n + 1 => (mem (uint64 addr)).toNat + 256 * readLE mem (addr + 1) n

/-! ## ELF headers -/

/-- The type of the entries that are segments. -/
def PT_LOAD : ℕ := 1

/-- `e_phoff`. -/
def ePhoff (mem : Memory) (ehdr : ℕ) : ℕ := readLE mem (ehdr + 32) 8

/-- `e_phentsize`. -/
def ePhentsize (mem : Memory) (ehdr : ℕ) : ℕ := readLE mem (ehdr + 54) 2

/-- `e_phnum`. -/
def ePhnum (mem : Memory) (ehdr : ℕ) : ℕ := readLE mem (ehdr + 56) 2

/-- The fields of `Elf64_Phdr` that are used. -/
structure Elf64Phdr where
  pType : ℕ
  pOffset : ℕ
  pVaddr : ℕ
  pFilesz : ℕ
  pMemsz : ℕ
deriving DecidableEq

/-- `sizeof(Elf64_Phdr)`. -/
def sizeofPhdr : ℕ := 56

/-- The fields at their offsets in `Elf64_Phdr`. -/
def readPhdr (mem : Memory) (addr : ℕ) : Elf64Phdr where
  pType := readLE mem addr 4
  pOffset := readLE mem (addr + 8) 8
  pVaddr := readLE mem (addr + 16) 8
  pFilesz := readLE mem (addr + 32) 8
  pMemsz := readLE mem (addr + 40) 8

/-- A loop over the program headers. The headers and their number are read anew in each
iteration, from the memory as it is then; the counter is an `Elf64_Half`, so there are fewer
than `2 ^ 16` iterations. -/
def phdrLoop {σ : Type*} (memory : σ → Memory) (body : Elf64Phdr → σ → σ) (ehdr phdrTable : ℕ) :
    ℕ → ℕ → σ → σ
  | 0, _, s => s
  | fuel + 1, i, s =>
    if i < ePhnum (memory s) ehdr then
      phdrLoop memory body ehdr phdrTable fuel (i + 1)
        (body (readPhdr (memory s) (phdrTable + sizeofPhdr * i)) s)
    else
      s

/-! ## The range and its pages -/

/-- The body of the loop of `CalcLoadAddressRange`. -/
def extendRange (phdr : Elf64Phdr) (range : ℕ × ℕ) : ℕ × ℕ :=
  if phdr.pType ≠ PT_LOAD then
    range
  else
    (min range.1 phdr.pVaddr, max range.2 (uint64 (phdr.pVaddr + phdr.pMemsz)))

/-- `CalcLoadAddressRange`: from the greatest first address and the least last one. -/
def calcLoadAddressRange (mem : Memory) (ehdr : ℕ) : ℕ × ℕ :=
  phdrLoop (fun _ => mem) extendRange ehdr (uint64 (ehdr + ePhoff mem ehdr)) (2 ^ 16) 0
    (2 ^ 64 - 1, 0)

/-- The number of pages that `UefiMain` asks for at the first address. -/
def numPages (range : ℕ × ℕ) : ℕ :=
  uint64 (uint64 (range.2 + 2 ^ 64 - range.1) + 0xfff) / 0x1000

/-! ## The copy -/

/-- Memory, and the writes made to it. -/
structure LoadState where
  memory : Memory
  writes : List (ℕ × BitVec 8)

/-- Some writes, one after the other. -/
def LoadState.write (s : LoadState) (log : List (ℕ × BitVec 8)) : LoadState where
  memory := WriteLog.store s.memory log
  writes := s.writes ++ log

/-- `CopyMem`: the source is read as it is before the copy. -/
def copyMem (destination source length : ℕ) (s : LoadState) : LoadState :=
  s.write ((List.range length).map fun i =>
    (uint64 (destination + i), s.memory (uint64 (source + i))))

/-- `SetMem`. -/
def setMem (buffer size : ℕ) (value : BitVec 8) (s : LoadState) : LoadState :=
  s.write ((List.range size).map fun i => (uint64 (buffer + i), value))

/-- The body of the loop of `CopyLoadSegments`. -/
def copyLoadSegment (ehdr : ℕ) (phdr : Elf64Phdr) (s : LoadState) : LoadState :=
  if phdr.pType ≠ PT_LOAD then
    s
  else
    let segmInFile := uint64 (ehdr + phdr.pOffset)
    let s := copyMem phdr.pVaddr segmInFile phdr.pFilesz s
    let remainBytes := uint64 (phdr.pMemsz + 2 ^ 64 - phdr.pFilesz)
    if remainBytes > 0 then setMem (uint64 (phdr.pVaddr + phdr.pFilesz)) remainBytes 0#8 s else s

/-- `CopyLoadSegments`. -/
def copyLoadSegments (mem : Memory) (ehdr : ℕ) : LoadState :=
  phdrLoop LoadState.memory (copyLoadSegment ehdr) ehdr (uint64 (ehdr + ePhoff mem ehdr)) (2 ^ 16) 0
    ⟨mem, []⟩

end TommyOS.BootLoader
