import TommyOS.Lib.X86Paging
import Mathlib.Data.List.FinRange

/-!
# `SetupIdentityPageTable`

The three arrays of `paging.cpp`, the loops that fill them, and the physical memory that
holds them. The linker chooses where the arrays lie (`TablePlacement`); the rest of memory
is arbitrary.
-/

namespace TommyOS

def kPageSize4K : ℕ := 4096

def kPageSize2M : ℕ := 512 * kPageSize4K

def kPageSize1G : ℕ := 512 * kPageSize2M

def kPageDirectoryCount : ℕ := 64

instance : NeZero kPageDirectoryCount := ⟨by decide⟩

/-- Where the arrays lie: at page-aligned physical addresses, apart from one another. -/
structure TablePlacement where
  pml4Table : ℕ
  pdpTable : ℕ
  pageDirectory : ℕ
  pml4Table_aligned : pml4Table % kPageSize4K = 0
  pdpTable_aligned : pdpTable % kPageSize4K = 0
  pageDirectory_aligned : pageDirectory % kPageSize4K = 0
  pml4Table_end : pml4Table + kPageSize4K ≤ 2 ^ 52
  pdpTable_end : pdpTable + kPageSize4K ≤ 2 ^ 52
  pageDirectory_end : pageDirectory + kPageDirectoryCount * kPageSize4K ≤ 2 ^ 52
  pml4_pdp : pml4Table + kPageSize4K ≤ pdpTable ∨ pdpTable + kPageSize4K ≤ pml4Table
  pml4_directory : pml4Table + kPageSize4K ≤ pageDirectory ∨
    pageDirectory + kPageDirectoryCount * kPageSize4K ≤ pml4Table
  pdp_directory : pdpTable + kPageSize4K ≤ pageDirectory ∨
    pageDirectory + kPageDirectoryCount * kPageSize4K ≤ pdpTable

/-- The contents of `pml4_table`, `pdp_table` and `page_directory`. -/
structure PageTables where
  pml4Table : Fin 512 → BitVec 64
  pdpTable : Fin 512 → BitVec 64
  pageDirectory : Fin kPageDirectoryCount → Fin 512 → BitVec 64

namespace PageTables

/-- Static storage starts out zero. -/
def zero : PageTables where
  pml4Table := fun _ => 0
  pdpTable := fun _ => 0
  pageDirectory := fun _ _ => 0

/-- One iteration of the inner loop. -/
def setPageEntry (iPdpt : Fin kPageDirectoryCount) (t : PageTables) (iPd : Fin 512) :
    PageTables :=
  { t with
    pageDirectory := Function.update t.pageDirectory iPdpt
      (Function.update (t.pageDirectory iPdpt) iPd
        (BitVec.ofNat 64 (iPdpt * kPageSize1G + iPd * kPageSize2M) ||| BitVec.ofNat 64 0x83)) }

/-- The index of `pdp_table` for a page directory. -/
def pdptIndex (iPdpt : Fin kPageDirectoryCount) : Fin 512 := iPdpt.castLE (by decide)

/-- One iteration of the outer loop. -/
def setDirectory (placement : TablePlacement) (t : PageTables)
    (iPdpt : Fin kPageDirectoryCount) : PageTables :=
  let t :=
    { t with
      pdpTable := Function.update t.pdpTable (pdptIndex iPdpt)
        (BitVec.ofNat 64 (placement.pageDirectory + iPdpt * kPageSize4K)
          ||| BitVec.ofNat 64 0x003) }
  (List.finRange 512).foldl (setPageEntry iPdpt) t

/-- `SetupIdentityPageTable` up to the load of CR3. -/
def fillTables (placement : TablePlacement) (t : PageTables) : PageTables :=
  let t :=
    { t with
      pml4Table := Function.update t.pml4Table 0
        (BitVec.ofNat 64 placement.pdpTable ||| BitVec.ofNat 64 0x003) }
  (List.finRange kPageDirectoryCount).foldl (setDirectory placement) t

/-- `SetupIdentityPageTable`: the tables it leaves, and the value it loads into CR3. -/
def setupIdentityPageTable (placement : TablePlacement) (t : PageTables) : PageTables × ℕ :=
  (fillTables placement t, placement.pml4Table)

/-- The word at a physical address: that of the array which lies there, or else whatever
memory holds. -/
def memory (placement : TablePlacement) (t : PageTables) (other : ℕ → BitVec 64) (a : ℕ) :
    BitVec 64 :=
  if placement.pml4Table ≤ a ∧ a < placement.pml4Table + kPageSize4K then
    t.pml4Table (Fin.ofNat 512 ((a - placement.pml4Table) / 8))
  else if placement.pdpTable ≤ a ∧ a < placement.pdpTable + kPageSize4K then
    t.pdpTable (Fin.ofNat 512 ((a - placement.pdpTable) / 8))
  else if placement.pageDirectory ≤ a ∧
      a < placement.pageDirectory + kPageDirectoryCount * kPageSize4K then
    t.pageDirectory
      (Fin.ofNat kPageDirectoryCount ((a - placement.pageDirectory) / kPageSize4K))
      (Fin.ofNat 512 ((a - placement.pageDirectory) % kPageSize4K / 8))
  else
    other a

end PageTables

/-- The translation of a virtual address after the kernel has set up its tables. -/
def translate (placement : TablePlacement) (other : ℕ → BitVec 64) (v : ℕ) :
    Option X86Paging.Translation :=
  let setup := PageTables.setupIdentityPageTable placement .zero
  X86Paging.walk (setup.1.memory placement other) setup.2 v

end TommyOS
