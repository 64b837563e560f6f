import TommyOS.Error
import TommyOS.Lib.PackedBitmap
import Mathlib.Algebra.Order.Group.Nat

/-!
# `BitmapMemoryManager`

The physical frame allocator: one bit a 4 KiB frame, packed into the 64-bit words of
`alloc_map_`, and a search range. A `FrameID` is the number of its frame and `size_t`
values are natural numbers; where the source forms a sum that could pass `2^64` it is
reduced by `sizeT`.

An access to `alloc_map_` past its last word is undefined behaviour in the source, so
every operation here returns `none` from the first such access on: an operation that
returns `some` has used line indices below `kMapLines` only.
-/

namespace TommyOS

/-- Reduction of a sum to the 64 bits of a `size_t`. -/
def sizeT (n : ℕ) : ℕ := n % 2 ^ 64

def kBytesPerFrame : ℕ := 4 * 1024

/-- `kNullFrame`, the largest `size_t`. -/
def kNullFrame : ℕ := 2 ^ 64 - 1

namespace BitmapMemoryManager

def kMaxPhysicalMemoryBytes : ℕ := 128 * 1024 * 1024 * 1024

def kFrameCount : ℕ := kMaxPhysicalMemoryBytes / kBytesPerFrame

/-- `8 * sizeof(unsigned long)` on x86-64. -/
def kBitsPerMapLine : ℕ := 8 * 8

/-- The number of words of `alloc_map_`. -/
def kMapLines : ℕ := kFrameCount / kBitsPerMapLine

end BitmapMemoryManager

open BitmapMemoryManager in
structure BitmapMemoryManager where
  allocMap : PackedBitmap kMapLines kBitsPerMapLine
  rangeBegin : ℕ
  rangeEnd : ℕ

namespace BitmapMemoryManager

/-- The constructor: no frame in use, and a range that covers the whole map. -/
def new : BitmapMemoryManager where
  allocMap := fun _ => 0
  rangeBegin := 0
  rangeEnd := kFrameCount

/-- `GetBit`. -/
def getBit (m : BitmapMemoryManager) (frame : ℕ) : Option Bool :=
  let lineIndex := frame / kBitsPerMapLine
  let bitIndex := frame % kBitsPerMapLine
  if h : lineIndex < kMapLines then
    let mask := BitVec.ofNat kBitsPerMapLine 1 <<< bitIndex
    some (decide (m.allocMap ⟨lineIndex, h⟩ &&& mask ≠ 0))
  else
    none

/-- `SetBit`. -/
def setBit (m : BitmapMemoryManager) (frame : ℕ) (allocated : Bool) :
    Option BitmapMemoryManager :=
  let lineIndex := frame / kBitsPerMapLine
  let bitIndex := frame % kBitsPerMapLine
  if h : lineIndex < kMapLines then
    let line := m.allocMap ⟨lineIndex, h⟩
    let mask := BitVec.ofNat kBitsPerMapLine 1 <<< bitIndex
    let line' := if allocated then line ||| mask else line &&& ~~~mask
    some { m with allocMap := Function.update m.allocMap ⟨lineIndex, h⟩ line' }
  else
    none

/-- `MarkAllocated`. -/
def markAllocated (m : BitmapMemoryManager) (startFrame : ℕ) (numFrames : ℕ) :
    Option BitmapMemoryManager :=
  (List.range numFrames).foldlM (fun m i => setBit m (sizeT (startFrame + i)) true) m

/-- `Free`. The loop runs `i` from `start_frame` up to the reduced end of the block. -/
def free (m : BitmapMemoryManager) (startFrame : ℕ) (numFrames : ℕ) :
    Option (Error × BitmapMemoryManager) :=
  let frames := List.range' startFrame (sizeT (startFrame + numFrames) - startFrame)
  (frames.foldlM (fun m i => setBit m i false) m).map fun m => (.kSuccess, m)

/-- `SetMemoryRange`. -/
def setMemoryRange (m : BitmapMemoryManager) (rangeBegin rangeEnd : ℕ) :
    BitmapMemoryManager :=
  { m with rangeBegin := rangeBegin, rangeEnd := rangeEnd }

/-! ## The search -/

/-- How the inner loop of `Allocate` ends: at `range_end_`, by a `break` on a frame in use,
or with `i == num_frames`. -/
inductive Probe where
  | noEnoughMemory
  | inUse (i : ℕ)
  | fits
deriving DecidableEq, Repr

/-- The inner loop of `Allocate` from the value `i` of its counter. The sums it forms are
at most `range_end_`, so they do not wrap. -/
def probe (m : BitmapMemoryManager) (numFrames startFrameId i : ℕ) : Option Probe :=
  if i < numFrames then
    if m.rangeEnd ≤ i + startFrameId then
      some .noEnoughMemory
    else
      match m.getBit (i + startFrameId) with
      | none => none
      | some true => some (.inUse i)
      | some false => probe m numFrames startFrameId (i + 1)
  else
    some .fits
termination_by numFrames - i

/-- A `break` happens inside the range, which is what makes the outer loop end. -/
theorem probe_inUse_lt {m : BitmapMemoryManager} {n s i j : ℕ}
    (h : m.probe n s i = some (.inUse j)) : j + s < m.rangeEnd := by
  induction i using probe.induct m n s with
  | case1 i hi hend =>
    rw [probe, if_pos hi, if_pos hend] at h
    cases h
  | case2 i hi hend hbit =>
    rw [probe, if_pos hi, if_neg hend, hbit] at h
    cases h
  | case3 i hi hend hbit =>
    rw [probe, if_pos hi, if_neg hend, hbit] at h
    cases h
    omega
  | case4 i hi hend hbit ih =>
    rw [probe, if_pos hi, if_neg hend, hbit] at h
    exact ih h
  | case5 i hi =>
    rw [probe, if_neg hi] at h
    cases h

/-- The outer loop of `Allocate` from the value `startFrameId` of its variable. -/
def allocateFrom (m : BitmapMemoryManager) (numFrames startFrameId : ℕ) :
    Option (Either ℕ × BitmapMemoryManager) :=
  match h : m.probe numFrames startFrameId 0 with
  | none => none
  | some .noEnoughMemory => some (⟨kNullFrame, .kNoEnoughMemory⟩, m)
  | some .fits =>
    (m.markAllocated startFrameId numFrames).map fun m => (⟨startFrameId, .kSuccess⟩, m)
  | some (.inUse i) => allocateFrom m numFrames (startFrameId + (i + 1))
termination_by m.rangeEnd - startFrameId
decreasing_by
  have := probe_inUse_lt h
  omega

/-- `Allocate`. -/
def allocate (m : BitmapMemoryManager) (numFrames : ℕ) :
    Option (Either ℕ × BitmapMemoryManager) :=
  m.allocateFrom numFrames m.rangeBegin

end BitmapMemoryManager

/-! ## The heap -/

/-- The globals `program_break` and `program_break_end`. -/
structure ProgramBreak where
  programBreak : ℕ
  programBreakEnd : ℕ
deriving DecidableEq, Repr

/-- `kHeapFrames`: 128 MiB. -/
def kHeapFrames : ℕ := 64 * 512

/-- `InitializeHeap`: on an error the globals keep their values. -/
def initializeHeap (m : BitmapMemoryManager) (brk : ProgramBreak) :
    Option (Error × BitmapMemoryManager × ProgramBreak) :=
  (m.allocate kHeapFrames).map fun (heapStart, m) =>
    if heapStart.error.failed then
      (heapStart.error, m, brk)
    else
      let programBreak := sizeT (heapStart.value * kBytesPerFrame)
      (.kSuccess, m, ⟨programBreak, sizeT (programBreak + kHeapFrames * kBytesPerFrame)⟩)

end TommyOS
