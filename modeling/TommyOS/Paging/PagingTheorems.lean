import TommyOS.Paging.Paging
import Mathlib.Data.List.Induction

/-!
# The identity map

What the loops of `SetupIdentityPageTable` leave in the three arrays, where the walk finds
it in memory, and the translation that results: an address below 64 GiB is mapped to
itself, any other address is not mapped.
-/

namespace TommyOS
namespace PageTables

/-! ## The arrays after the loops -/

/-- The inner loop over a list of indices, entry by entry. -/
theorem foldl_setPageEntry (iPdpt : Fin kPageDirectoryCount) (l : List (Fin 512))
    (t : PageTables) :
    (l.foldl (setPageEntry iPdpt) t).pml4Table = t.pml4Table ∧
    (l.foldl (setPageEntry iPdpt) t).pdpTable = t.pdpTable ∧
    ∀ i j, (l.foldl (setPageEntry iPdpt) t).pageDirectory i j =
      if i = iPdpt ∧ j ∈ l then
        BitVec.ofNat 64 (iPdpt * kPageSize1G + j * kPageSize2M) ||| BitVec.ofNat 64 0x83
      else t.pageDirectory i j := by
  induction l generalizing t with
  | nil => exact ⟨rfl, rfl, fun i j => by simp⟩
  | cons k l ih =>
    obtain ⟨hpml4, hpdp, hdir⟩ := ih (setPageEntry iPdpt t k)
    refine ⟨hpml4, hpdp, fun i j => ?_⟩
    rw [List.foldl_cons, hdir]
    -- entry `k` is written first, and again where `k` occurs in the tail, with the same value
    by_cases hi : i = iPdpt
    · by_cases hjl : j ∈ l
      · simp [hi, hjl]
      · by_cases hjk : j = k
        · simp [hi, hjk, setPageEntry]
        · simp [hi, hjl, hjk, setPageEntry]
    · simp [hi, setPageEntry]

/-- One iteration of the outer loop fills one page directory and the entry for it. -/
theorem setDirectory_eq (placement : TablePlacement) (t : PageTables)
    (iPdpt : Fin kPageDirectoryCount) :
    (setDirectory placement t iPdpt).pml4Table = t.pml4Table ∧
    (setDirectory placement t iPdpt).pdpTable =
      Function.update t.pdpTable (pdptIndex iPdpt)
        (BitVec.ofNat 64 (placement.pageDirectory + iPdpt * kPageSize4K)
          ||| BitVec.ofNat 64 0x003) ∧
    ∀ i j, (setDirectory placement t iPdpt).pageDirectory i j =
      if i = iPdpt then
        BitVec.ofNat 64 (iPdpt * kPageSize1G + j * kPageSize2M) ||| BitVec.ofNat 64 0x83
      else t.pageDirectory i j := by
  unfold setDirectory
  obtain ⟨hpml4, hpdp, hdir⟩ := foldl_setPageEntry iPdpt (List.finRange 512) _
  refine ⟨hpml4, hpdp, fun i j => ?_⟩
  rw [hdir]
  simp [List.mem_finRange]

/-- The outer loop over a list of indices. -/
theorem foldl_setDirectory (placement : TablePlacement) (l : List (Fin kPageDirectoryCount))
    (t : PageTables) :
    (l.foldl (setDirectory placement) t).pml4Table = t.pml4Table ∧
    (∀ i, i ∈ l → (l.foldl (setDirectory placement) t).pdpTable (pdptIndex i) =
      BitVec.ofNat 64 (placement.pageDirectory + i * kPageSize4K)
        ||| BitVec.ofNat 64 0x003) ∧
    (∀ k, (∀ i ∈ l, k ≠ pdptIndex i) →
      (l.foldl (setDirectory placement) t).pdpTable k = t.pdpTable k) ∧
    ∀ i j, i ∈ l → (l.foldl (setDirectory placement) t).pageDirectory i j =
      BitVec.ofNat 64 (i * kPageSize1G + j * kPageSize2M) ||| BitVec.ofNat 64 0x83 := by
  induction l using List.reverseRecOn with
  | nil =>
    exact ⟨rfl, fun i hi => absurd hi List.not_mem_nil, fun k _ => rfl,
      fun i j hi => absurd hi List.not_mem_nil⟩
  | append_singleton l a ih =>
    obtain ⟨hpml4, hpdp, hother, hdir⟩ := ih
    rw [List.foldl_append, List.foldl_cons, List.foldl_nil]
    obtain ⟨hpml4', hpdp', hdir'⟩ :=
      setDirectory_eq placement (l.foldl (setDirectory placement) t) a
    -- two indices of the loop are two entries of the PDP table
    have hinj : ∀ i, pdptIndex i = pdptIndex a ↔ i = a := fun i =>
      (Fin.castLE_injective _).eq_iff
    refine ⟨hpml4'.trans hpml4, fun i hi => ?_, fun k hk => ?_, fun i j hi => ?_⟩
    · rw [hpdp']
      by_cases hia : i = a
      · rw [hia, Function.update_self]
      · rw [Function.update_of_ne (fun h => hia ((hinj i).mp h))]
        exact hpdp i (by simpa [hia] using hi)
    · rw [hpdp', Function.update_of_ne (hk a (by simp))]
      exact hother k fun i hi => hk i (List.mem_append_left _ hi)
    · rw [hdir']
      -- a later round writes another page directory
      by_cases hia : i = a
      · rw [if_pos hia, hia]
      · rw [if_neg hia]
        exact hdir i j (by simpa [hia] using hi)

/-- The arrays that `SetupIdentityPageTable` leaves. -/
structure IdentityTables (placement : TablePlacement) (t : PageTables) : Prop where
  pml4Table : ∀ k, t.pml4Table k = if k = 0 then
    BitVec.ofNat 64 placement.pdpTable ||| BitVec.ofNat 64 0x003 else 0
  pdpTable : ∀ k, t.pdpTable k = if k.val < kPageDirectoryCount then
    BitVec.ofNat 64 (placement.pageDirectory + k * kPageSize4K) ||| BitVec.ofNat 64 0x003 else 0
  pageDirectory : ∀ i j, t.pageDirectory i j =
    BitVec.ofNat 64 (i * kPageSize1G + j * kPageSize2M) ||| BitVec.ofNat 64 0x83

theorem fillTables_identity (placement : TablePlacement) :
    IdentityTables placement (fillTables placement .zero) := by
  unfold fillTables
  generalize hstart : PageTables.mk (Function.update PageTables.zero.pml4Table 0
    (BitVec.ofNat 64 placement.pdpTable ||| BitVec.ofNat 64 0x003))
    PageTables.zero.pdpTable PageTables.zero.pageDirectory = start
  -- from here on the 64 indices are any list that holds all of them, so none is evaluated
  have hmem : ∀ i, i ∈ List.finRange kPageDirectoryCount := List.mem_finRange
  generalize List.finRange kPageDirectoryCount = indices at hmem ⊢
  obtain ⟨hpml4, hpdp, hother, hdir⟩ := foldl_setDirectory placement indices start
  refine ⟨fun k => ?_, fun k => ?_, fun i j => hdir i j (hmem i)⟩
  · rw [hpml4, ← hstart]
    exact Function.update_apply _ _ _ _
  · by_cases hk : k.val < kPageDirectoryCount
    · rw [if_pos hk]
      have hval := hpdp ⟨k, hk⟩ (hmem _)
      have hidx : pdptIndex ⟨k, hk⟩ = k := Fin.ext rfl
      rwa [hidx] at hval
    · rw [if_neg hk, hother k fun i _ heq => hk (by rw [heq]; exact i.isLt), ← hstart]
      rfl

/-! ## The words the walk reads -/

variable {placement : TablePlacement} {t : PageTables} {other : ℕ → BitVec 64}

theorem memory_pml4Table {k : ℕ} (hk : k < 512) :
    t.memory placement other (placement.pml4Table + 8 * k) = t.pml4Table ⟨k, hk⟩ := by
  have h4K : kPageSize4K = 4096 := rfl
  unfold memory
  rw [if_pos (by omega)]
  apply congrArg t.pml4Table
  apply Fin.ext
  simp only [Fin.ofNat, Nat.add_sub_cancel_left]
  omega

theorem memory_pdpTable {k : ℕ} (hk : k < 512) :
    t.memory placement other (placement.pdpTable + 8 * k) = t.pdpTable ⟨k, hk⟩ := by
  have hapart := placement.pml4_pdp
  have h4K : kPageSize4K = 4096 := rfl
  unfold memory
  rw [if_neg (by omega), if_pos (by omega)]
  apply congrArg t.pdpTable
  apply Fin.ext
  simp only [Fin.ofNat, Nat.add_sub_cancel_left]
  omega

theorem memory_pageDirectory {i k : ℕ} (hi : i < kPageDirectoryCount) (hk : k < 512) :
    t.memory placement other (placement.pageDirectory + i * kPageSize4K + 8 * k)
      = t.pageDirectory ⟨i, hi⟩ ⟨k, hk⟩ := by
  have hapart4 := placement.pml4_directory
  have hapart3 := placement.pdp_directory
  have hi' : i < 64 := hi
  have hindex : placement.pageDirectory + i * kPageSize4K + 8 * k - placement.pageDirectory
      = kPageSize4K * i + 8 * k := by rw [Nat.mul_comm]; omega
  have hdiv : (kPageSize4K * i + 8 * k) / kPageSize4K = i := by
    simp only [kPageSize4K]; omega
  have hmod : (kPageSize4K * i + 8 * k) % kPageSize4K / 8 = k := by
    simp only [kPageSize4K]; omega
  -- past the other two arrays, and before the end of the 64 directories
  have hsize : kPageDirectoryCount * kPageSize4K = 262144 := rfl
  have hoffset : i * kPageSize4K + 8 * k < 262144 := by simp only [kPageSize4K]; omega
  unfold memory
  rw [hindex, hdiv, hmod, if_neg (by omega), if_neg (by omega), if_pos (by omega)]
  have hfin : Fin.ofNat kPageDirectoryCount i = ⟨i, hi⟩ := Fin.ext (Nat.mod_eq_of_lt hi)
  have hfin' : Fin.ofNat 512 k = ⟨k, hk⟩ := Fin.ext (Nat.mod_eq_of_lt hk)
  exact congrArg₂ t.pageDirectory hfin hfin'

end PageTables

/-! ## The translation -/

open X86Paging PageTables

/-- Flags `0x003`: present, writable, naming a table. -/
theorem tableEntry_flags {a : ℕ} (ha : a % 2 ^ 12 = 0) :
    present (BitVec.ofNat 64 a ||| BitVec.ofNat 64 0x003) = true ∧
    writable (BitVec.ofNat 64 a ||| BitVec.ofNat 64 0x003) = true ∧
    pageSize (BitVec.ofNat 64 a ||| BitVec.ofNat 64 0x003) = false := by
  unfold present writable pageSize
  rw [getLsbD_or_flags ha (by omega), getLsbD_or_flags ha (by omega),
    getLsbD_or_flags ha (by omega)]
  decide

/-- Flags `0x83`: present, writable, mapping a page. -/
theorem pageEntry_flags {a : ℕ} (ha : a % 2 ^ 12 = 0) :
    present (BitVec.ofNat 64 a ||| BitVec.ofNat 64 0x83) = true ∧
    writable (BitVec.ofNat 64 a ||| BitVec.ofNat 64 0x83) = true ∧
    pageSize (BitVec.ofNat 64 a ||| BitVec.ofNat 64 0x83) = true := by
  unfold present writable pageSize
  rw [getLsbD_or_flags ha (by omega), getLsbD_or_flags ha (by omega),
    getLsbD_or_flags ha (by omega)]
  decide

/-- The end of the address range that the page directories cover. -/
def mappedBytes : ℕ := kPageDirectoryCount * kPageSize1G

theorem mappedBytes_eq : mappedBytes = 68719476736 := by decide

theorem translate_eq (placement : TablePlacement) (other : ℕ → BitVec 64) (v : ℕ) :
    translate placement other v =
      walk (memory placement (fillTables placement .zero) other) placement.pml4Table v := by
  unfold translate setupIdentityPageTable
  generalize fillTables placement .zero = t
  rfl

section Walk

variable {placement : TablePlacement} {t : PageTables} {other : ℕ → BitVec 64} {v : ℕ}

theorem address_pdpTable (placement : TablePlacement) :
    address (BitVec.ofNat 64 placement.pdpTable ||| BitVec.ofNat 64 0x003) 12
      = placement.pdpTable := by
  have hend := placement.pdpTable_end
  have haligned := placement.pdpTable_aligned
  simp only [kPageSize4K] at hend haligned
  exact address_or_flags (by omega) (le_refl 12) (by omega) (by norm_num)

theorem address_pageDirectory (placement : TablePlacement) {i : ℕ}
    (hi : i < kPageDirectoryCount) :
    address (BitVec.ofNat 64 (placement.pageDirectory + i * kPageSize4K)
        ||| BitVec.ofNat 64 0x003) 12
      = placement.pageDirectory + i * kPageSize4K := by
  have hend := placement.pageDirectory_end
  have haligned := placement.pageDirectory_aligned
  simp only [kPageSize4K, kPageDirectoryCount] at hend haligned hi ⊢
  exact address_or_flags (by omega) (le_refl 12) (by omega) (by norm_num)

theorem address_page {i j : ℕ} (hi : i < 512) (hj : j < 512) :
    address (BitVec.ofNat 64 (i * kPageSize1G + j * kPageSize2M) ||| BitVec.ofNat 64 0x83) 21
      = i * kPageSize1G + j * kPageSize2M := by
  simp only [kPageSize1G, kPageSize2M, kPageSize4K]
  exact address_or_flags (by omega) (by norm_num) (by omega) (by norm_num)

/-- Below 64 GiB the walk ends at a writable 2 MiB page that maps the address to itself. -/
theorem walk_identity (ht : IdentityTables placement t) (hv : v < mappedBytes) :
    walk (memory placement t other) placement.pml4Table v = some ⟨v, 2 ^ 21, true⟩ := by
  rw [mappedBytes_eq] at hv
  have hroot : v / 2 ^ 39 % 512 = 0 := by omega
  have hi : v / 2 ^ 30 % 512 < kPageDirectoryCount := by simp only [kPageDirectoryCount]; omega
  have hi' : v / 2 ^ 30 % 512 < 512 := Nat.mod_lt _ (by norm_num)
  have hj : v / 2 ^ 21 % 512 < 512 := Nat.mod_lt _ (by norm_num)
  have hpdp0 := placement.pdpTable_aligned
  have hdir0 := placement.pageDirectory_aligned
  simp only [kPageSize4K] at hpdp0 hdir0
  -- the entries on the way are present and writable, and the last one maps a page
  have hfour := tableEntry_flags (a := placement.pdpTable) (by omega)
  have hthree := tableEntry_flags
    (a := placement.pageDirectory + v / 2 ^ 30 % 512 * kPageSize4K)
    (by simp only [kPageSize4K]; omega)
  have htwo := pageEntry_flags
    (a := v / 2 ^ 30 % 512 * kPageSize1G + v / 2 ^ 21 % 512 * kPageSize2M)
    (by simp only [kPageSize1G, kPageSize2M, kPageSize4K]; omega)
  have h4 : memory placement t other (placement.pml4Table + 8 * (v / 2 ^ 39 % 512))
      = BitVec.ofNat 64 placement.pdpTable ||| BitVec.ofNat 64 0x003 := by
    rw [hroot, memory_pml4Table (by norm_num), ht.pml4Table]
    rfl
  have h3 : memory placement t other (placement.pdpTable + 8 * (v / 2 ^ 30 % 512))
      = BitVec.ofNat 64 (placement.pageDirectory + v / 2 ^ 30 % 512 * kPageSize4K)
        ||| BitVec.ofNat 64 0x003 := by
    rw [memory_pdpTable hi', ht.pdpTable, if_pos hi]
  have h2 : memory placement t other (placement.pageDirectory
      + v / 2 ^ 30 % 512 * kPageSize4K + 8 * (v / 2 ^ 21 % 512))
      = t.pageDirectory ⟨_, hi⟩ ⟨_, hj⟩ := memory_pageDirectory hi hj
  rw [ht.pageDirectory] at h2
  have hwalk := walk_of_large_page (Or.inl (by omega)) h4 hfour.1
    (by rw [address_pdpTable]; exact h3) hthree.1 hthree.2.2
    (by rw [address_pageDirectory placement hi]; exact h2) htwo.1 htwo.2.2
  have hsum : v / 2 ^ 30 % 512 * kPageSize1G + v / 2 ^ 21 % 512 * kPageSize2M + v % 2 ^ 21 = v := by
    simp only [kPageSize1G, kPageSize2M, kPageSize4K]
    omega
  rw [address_page hi' hj, hfour.2.1, hthree.2.1, htwo.2.1, hsum] at hwalk
  exact hwalk

/-- From 64 GiB on the walk meets an entry that is not present. -/
theorem walk_beyond (ht : IdentityTables placement t) (hv : mappedBytes ≤ v)
    (hlt : v < 2 ^ 64) : walk (memory placement t other) placement.pml4Table v = none := by
  rw [mappedBytes_eq] at hv
  by_cases hcan : Canonical v
  · by_cases hroot : v / 2 ^ 39 % 512 = 0
    · -- a canonical address of the first 512 GiB: its index is past the filled entries
      have hi : ¬ v / 2 ^ 30 % 512 < kPageDirectoryCount := by
        simp only [kPageDirectoryCount]
        rcases hcan with hlow | hhigh
        · omega
        · omega
      apply walk_of_not_present3
        (e := BitVec.ofNat 64 placement.pdpTable ||| BitVec.ofNat 64 0x003)
      · rw [hroot, memory_pml4Table (by norm_num), ht.pml4Table]
        rfl
      · rw [address_pdpTable, memory_pdpTable (Nat.mod_lt _ (by norm_num)), ht.pdpTable,
          if_neg hi]
        rfl
    · -- past the first 512 GiB: the top-level entry is one of those left zero
      apply walk_of_not_present4
      rw [memory_pml4Table (Nat.mod_lt _ (by norm_num)), ht.pml4Table,
        if_neg (fun h => hroot (congrArg Fin.val h))]
      rfl
  · unfold walk
    rw [if_pos hcan]

end Walk

/-- The kernel's tables map `v`, and to itself. -/
def IdentityMapped (placement : TablePlacement) (other : ℕ → BitVec 64) (v : ℕ) : Prop :=
  ∃ tr, translate placement other v = some tr ∧ tr.physical = v

theorem identityMapped_iff (placement : TablePlacement) (other : ℕ → BitVec 64) {v : ℕ}
    (hlt : v < 2 ^ 64) : IdentityMapped placement other v ↔ v < mappedBytes := by
  unfold IdentityMapped
  by_cases hv : v < mappedBytes
  · apply iff_of_true _ hv
    rw [translate_eq, walk_identity (fillTables_identity placement) hv]
    exact ⟨_, rfl, rfl⟩
  · refine iff_of_false (fun h => ?_) hv
    rw [translate_eq, walk_beyond (fillTables_identity placement) (Nat.le_of_not_lt hv) hlt] at h
    obtain ⟨tr, htr, _⟩ := h
    cases htr

/-- The tables are an identity map: below 64 GiB the walk ends at a writable 2 MiB page that
maps the address to itself, and for every other canonical address it meets an entry that is
not present. -/
theorem setupIdentityPageTable_identity (placement : TablePlacement) (other : ℕ → BitVec 64)
    (v : ℕ) :
    let setup := setupIdentityPageTable placement .zero
    (v < kPageDirectoryCount * 2 ^ 30 →
      walk (setup.1.memory placement other) setup.2 v = some ⟨v, 2 ^ 21, true⟩) ∧
    (Canonical v → kPageDirectoryCount * 2 ^ 30 ≤ v →
      MeetsNotPresent (setup.1.memory placement other) setup.2 v) := by
  have hbytes : kPageDirectoryCount * 2 ^ 30 = mappedBytes := by decide
  have htables := fillTables_identity placement
  unfold setupIdentityPageTable
  -- only what the arrays hold matters from here on
  generalize fillTables placement .zero = t at htables ⊢
  rw [hbytes]
  constructor
  · exact walk_identity htables
  · intro hcan hv
    have hlt : v < 2 ^ 64 := by
      rcases hcan with hlow | hhigh
      · exact hlow.trans (by norm_num)
      · exact hhigh.2
    exact (walk_eq_none_iff hcan).mp (walk_beyond htables hv hlt)

end TommyOS
