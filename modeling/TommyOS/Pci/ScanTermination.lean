import TommyOS.Pci.ScanAllBus

/-!
# The scan in memory

`num_device` is a number like any other, and `devices` a piece of memory that a store can miss. The
scan over these takes the same steps as the one over a `DeviceTable`, so it ends, and its stores
stay in the table.
-/

namespace TommyOS.Pci

variable {space : ConfigSpace}

/-- `num_device`, the memory from `devices` on, and the stores of the scan: the index of each, and
`num_device` behind it, the last one first. -/
structure DeviceMemory where
  devices : ℕ → Device
  numDevice : ℕ
  stores : List (ℕ × ℕ)

namespace DeviceMemory

/-- `AddDevice`. -/
def addDevice (device : Device) (m : DeviceMemory) : Error × DeviceMemory :=
  if m.numDevice = 32 then (.kFull, m)
  else
    (.kSuccess,
      { devices := Function.update m.devices m.numDevice device
        numDevice := m.numDevice + 1
        stores := (m.numDevice, m.numDevice + 1) :: m.stores })

instance : ScanTable DeviceMemory where
  clear m := { m with numDevice := 0, stores := [] }
  addDevice := addDevice

/-! ## The same steps over the table -/

/-- The stores that fill the first entries. -/
def storesUpTo : ℕ → List (ℕ × ℕ)
  | 0 => []
  | n + 1 => (n, n + 1) :: storesUpTo n

/-- The stores of a table with `n` devices are into its first `n` entries. -/
theorem mem_storesUpTo {n : ℕ} {store : ℕ × ℕ} (h : store ∈ storesUpTo n) :
    store.1 < n ∧ store.2 ≤ n := by
  induction n with
  | zero => exact absurd h List.not_mem_nil
  | succ n ih =>
    rcases List.mem_cons.mp h with rfl | h
    · exact ⟨Nat.lt_succ_self n, Nat.le_refl _⟩
    · exact ⟨(ih h).1.trans (Nat.lt_succ_self n), (ih h).2.trans (Nat.le_succ n)⟩

/-- Memory that holds a table, behind which nothing was written. -/
structure Holds (behind : ℕ → Device) (t : DeviceTable) (m : DeviceMemory) : Prop where
  numDevice : m.numDevice = t.numDevice
  devices : ∀ i : Fin 32, m.devices i = t.devices i
  behind : ∀ i, 32 ≤ i → m.devices i = behind i
  stores : m.stores = storesUpTo t.numDevice

variable {behind : ℕ → Device}

/-- Memory that holds a table is determined by it and by what is behind it. -/
theorem Holds.unique {t : DeviceTable} {m m' : DeviceMemory} (h : Holds behind t m)
    (h' : Holds behind t m') : m = m' := by
  have hdevices : m.devices = m'.devices := by
    funext i
    by_cases hi : i < 32
    · exact (h.devices ⟨i, hi⟩).trans (h'.devices ⟨i, hi⟩).symm
    · exact (h.behind i (Nat.not_lt.mp hi)).trans (h'.behind i (Nat.not_lt.mp hi)).symm
  cases m
  cases m'
  congr 1
  · exact h.numDevice.trans h'.numDevice.symm
  · exact h.stores.trans h'.stores.symm

/-- The same error, over a table and over memory that holds it. -/
def Same (behind : ℕ → Device) (r : Error × DeviceTable) (r' : Error × DeviceMemory) : Prop :=
  r.1 = r'.1 ∧ Holds behind r.2 r'.2

/-- Two results of scans. -/
abbrev Agree (behind : ℕ → Device) :
    Option (Error × DeviceTable) → Option (Error × DeviceMemory) → Prop :=
  Option.Rel (Same behind)

variable {t : DeviceTable} {m : DeviceMemory}

/-- The check for a full table is what keeps the store in the 32 entries. -/
theorem addDevice_same (h : Holds behind t m) (device : Device) :
    Same behind (ScanTable.addDevice device t) (ScanTable.addDevice device m) := by
  show Same behind (Pci.addDevice device t) (addDevice device m)
  unfold Pci.addDevice addDevice
  by_cases hfull : t.numDevice = 32
  · rw [dif_pos hfull, if_pos (h.numDevice.trans hfull)]
    exact ⟨rfl, h⟩
  · rw [dif_neg hfull, if_neg (fun hm => hfull (h.numDevice.symm.trans hm))]
    have hlt : t.numDevice < 32 := Nat.lt_of_le_of_ne t.numDevice_le hfull
    refine ⟨rfl, ?_, fun i => ?_, fun i hi => ?_, ?_⟩
    · exact congrArg (· + 1) h.numDevice
    · simp only [Function.update_apply, h.numDevice, Fin.ext_iff]
      split
      · rfl
      · exact h.devices i
    · have hne : i ≠ m.numDevice := by
        rw [h.numDevice]
        omega
      exact (Function.update_of_ne hne _ _).trans (h.behind i hi)
    · rw [h.stores, h.numDevice, storesUpTo]

/-- Agreement goes through a call. -/
theorem agree_bind {x : Option (Error × DeviceTable)} {x' : Option (Error × DeviceMemory)}
    (h : Agree behind x x') {next : Error × DeviceTable → Option (Error × DeviceTable)}
    {next' : Error × DeviceMemory → Option (Error × DeviceMemory)}
    (hnext : ∀ r r', Same behind r r' → Agree behind (next r) (next' r')) :
    Agree behind (x.bind next) (x'.bind next') := by
  cases h with
  | none => exact .none
  | some h => exact hnext _ _ h

/-- Loops with bodies that agree. -/
theorem forEach_agree {α : Type} {body : α → DeviceTable → Option (Error × DeviceTable)}
    {body' : α → DeviceMemory → Option (Error × DeviceMemory)}
    (hbody : ∀ a t m, Holds behind t m → Agree behind (body a t) (body' a m)) (as : List α)
    (h : Holds behind t m) : Agree behind (forEach body as t) (forEach body' as m) := by
  induction as generalizing t m with
  | nil => exact .some ⟨rfl, h⟩
  | cons a as ih =>
    refine agree_bind (hbody a t m h) fun ⟨err, t⟩ ⟨_, m⟩ ⟨herr, h⟩ => ?_
    obtain rfl : err = _ := herr
    dsimp only
    split
    · exact .some ⟨rfl, h⟩
    · exact ih h

/-- A loop that leaves out the functions that are not there. -/
theorem forEach_agree_present {bus : BitVec 8} (place : BitVec 8 → BitVec 8 × BitVec 8)
    {body : BitVec 8 → DeviceTable → Option (Error × DeviceTable)}
    {body' : BitVec 8 → DeviceMemory → Option (Error × DeviceMemory)}
    (hbody : ∀ a t m, Holds behind t m → Agree behind (body a t) (body' a m))
    (as : List (BitVec 8)) (h : Holds behind t m) :
    Agree behind
      (forEach (fun a t => if readVendorId space bus (place a).1 (place a).2 = 0xffff#16 then
        some (.kSuccess, t) else body a t) as t)
      (forEach (fun a m => if readVendorId space bus (place a).1 (place a).2 = 0xffff#16 then
        some (.kSuccess, m) else body' a m) as m) := by
  refine forEach_agree (fun a t m h => ?_) as h
  split
  · exact .some ⟨rfl, h⟩
  · exact hbody a t m h

section Calls

variable {busScan : BusScan DeviceTable} {busScan' : BusScan DeviceMemory}
  (hscan : ∀ bus t m, Holds behind t m → Agree behind (busScan bus t) (busScan' bus m))
include hscan

/-- One function, over the two kinds of table. -/
theorem scanFunction_agree (bus device function : BitVec 8) (h : Holds behind t m) :
    Agree behind (scanFunction space busScan bus device function t)
      (scanFunction space busScan' bus device function m) := by
  have hadd := addDevice_same h ⟨bus, device, function, readHeaderType space bus device function,
    readClassCode space bus device function⟩
  unfold scanFunction
  dsimp only
  generalize ScanTable.addDevice _ t = r at hadd ⊢
  generalize ScanTable.addDevice _ m = r' at hadd ⊢
  obtain ⟨herr, h⟩ := hadd
  rw [← herr]
  split
  · exact .some ⟨rfl, h⟩
  · split
    · exact hscan _ _ _ h
    · exact .some ⟨rfl, h⟩

theorem scanDevice_agree (bus device : BitVec 8) (h : Holds behind t m) :
    Agree behind (scanDevice space busScan bus device t)
      (scanDevice space busScan' bus device m) := by
  refine agree_bind (scanFunction_agree hscan bus device 0#8 h) fun ⟨err, t⟩ ⟨_, m⟩ ⟨herr, h⟩ => ?_
  obtain rfl : err = _ := herr
  dsimp only
  split
  · exact .some ⟨rfl, h⟩
  · split
    · exact .some ⟨rfl, h⟩
    · exact forEach_agree_present (fun function => (device, function))
        (fun function t m h => scanFunction_agree hscan bus device function h) _ h

end Calls

/-- By induction on the depth that is left. -/
theorem scanBus_agree (depth : ℕ) (bus : BitVec 8) (h : Holds behind t m) :
    Agree behind (scanBus space depth bus t) (scanBus space depth bus m) := by
  induction depth generalizing bus t m with
  | zero => exact .none
  | succ depth ih =>
    exact forEach_agree_present (fun device => (device, 0#8))
      (fun device t m h => scanDevice_agree (fun bus t m h => ih bus h) bus device h) _ h

theorem scanAllBus_agree (depth : ℕ) (devices : Fin 32 → Device) (m : DeviceMemory)
    (hdevices : ∀ i : Fin 32, m.devices i = devices i) :
    Agree m.devices (scanAllBus space depth (⟨devices, 0, DeviceTable.zero_le⟩ : DeviceTable))
      (scanAllBus space depth m) := by
  have hstart : Holds m.devices ⟨devices, 0, DeviceTable.zero_le⟩
      { m with numDevice := 0, stores := [] } :=
    ⟨rfl, hdevices, fun _ _ => rfl, rfl⟩
  unfold scanAllBus
  by_cases hsingle : isSingleFunctionDevice (readHeaderType space 0#8 0#8 0#8)
  · simp only [if_pos hsingle]
    exact scanBus_agree depth 0#8 hstart
  · simp only [if_neg hsingle]
    exact forEach_agree_present (fun function => (0#8, function))
      (fun function t m h => scanBus_agree depth function h) _ hstart

/-- The scan ends for every configuration space, whatever the memory holds: 33 nested calls of
`ScanBus` are enough, as each but the first fills an entry of the table. `num_device` is never
above 32, and all stores go into the 32 entries. -/
theorem scanAllBus_terminates (space : ConfigSpace) (m : DeviceMemory) :
    ∃ err m', (∀ depth, 32 < depth → scanAllBus space depth m = some (err, m')) ∧
      m'.numDevice ≤ 32 ∧ (∀ store ∈ m'.stores, store.1 < 32 ∧ store.2 ≤ 32) ∧
      ∀ i, 32 ≤ i → m'.devices i = m.devices i := by
  obtain ⟨err, t', hrun, -⟩ := scanAllBus_spec space (Nat.lt_succ_self 32)
    ⟨fun i => m.devices i, 0, DeviceTable.zero_le⟩
  have hmemory : ∀ depth, 32 < depth →
      ∃ m', scanAllBus space depth m = some (err, m') ∧ Holds m.devices t' m' := by
    intro depth hdepth
    have hagree : Agree m.devices
        (scanAllBus space depth (⟨fun i => m.devices i, 0, DeviceTable.zero_le⟩ : DeviceTable))
        (scanAllBus space depth m) :=
      scanAllBus_agree depth (fun i => m.devices i) m fun _ => rfl
    rw [scanAllBus_of_depth hdepth, hrun] at hagree
    generalize scanAllBus space depth m = r at hagree ⊢
    cases hagree with
    | @some _ r h => exact ⟨r.2, by rw [show err = r.1 from h.1], h.2⟩
  obtain ⟨m', hscan, hholds⟩ := hmemory 33 (Nat.lt_succ_self 32)
  refine ⟨err, m', fun depth hdepth => ?_, ?_, fun store hstore => ?_, hholds.behind⟩
  · obtain ⟨m₂, hscan₂, hholds₂⟩ := hmemory depth hdepth
    rw [hscan₂, hholds.unique hholds₂]
  · exact hholds.numDevice ▸ t'.numDevice_le
  · rw [hholds.stores] at hstore
    obtain ⟨hindex, hcount⟩ := mem_storesUpTo hstore
    exact ⟨hindex.trans_le t'.numDevice_le, hcount.trans t'.numDevice_le⟩

end DeviceMemory

end TommyOS.Pci
