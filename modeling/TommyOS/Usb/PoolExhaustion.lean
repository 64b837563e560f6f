import TommyOS.Usb.PoolAllocations

/-!
# A pool that runs out

Where the pool has no room `AllocMem` returns null. The rings of the controller are checked for
that; the scratchpad, the devices and the transfer rings are not, so a call uses a null pointer
exactly when one of its unchecked allocations does not fit.
-/

namespace TommyOS.Usb

open Alignment BumpAllocator

namespace PoolLog

variable {s s' : PoolLog} {rs : List Request}

/-! ## The calls -/

/-- No null pointer was used, and a call with an allocation that failed says so. -/
def Reported (err : Error) (s : PoolLog) : Prop :=
  nullptr ∉ s.uses ∧ (s.exhausted = true → err.failed = true)

theorem start_clean (pool : MemoryPool) :
    nullptr ∉ (start pool).uses ∧ (start pool).exhausted = false :=
  ⟨List.not_mem_nil, rfl⟩

/-- A call without checks reports exactly that all its requests fit. -/
theorem Took.reported_iff {pool : MemoryPool} {err : Error} (h : Took (start pool) rs s) :
    Reported err s ↔ Fits pool.poolEnd pool.allocPtr.toNat rs := by
  have hnull : nullptr ∈ s.uses ↔ ¬ Fits pool.poolEnd pool.allocPtr.toNat rs :=
    h.null.trans (or_iff_right (start_clean pool).1)
  have hexhausted : s.exhausted = true ↔ ¬ Fits pool.poolEnd pool.allocPtr.toNat rs :=
    h.exhausted.trans (or_iff_right Bool.false_ne_true)
  constructor
  · intro hreported
    by_contra hnot
    exact hreported.1 (hnull.mpr hnot)
  · intro hfits
    exact ⟨fun hmem => hnull.mp hmem hfits, fun hfailed => absurd hfits (hexhausted.mp hfailed)⟩

theorem configureEndpoints_reported_iff {pool : MemoryPool} (hs : pool.Sane)
    (commandRing : BitVec 64) (portSpeed numEpConfigs : ℕ) :
    Reported ((start pool).configureEndpoints commandRing portSpeed numEpConfigs).1
        ((start pool).configureEndpoints commandRing portSpeed numEpConfigs).2 ↔
      portSpeed = 0 ∨ kSuperSpeedPlus < portSpeed ∨
        commandRing ≠ nullptr ∧
          Fits pool.poolEnd pool.allocPtr.toNat (endpointRequests numEpConfigs) := by
  unfold configureEndpoints
  rw [← or_assoc]
  by_cases hspeed : portSpeed = 0 ∨ kSuperSpeedPlus < portSpeed
  · rw [if_pos hspeed]
    exact iff_of_true ⟨(start_clean pool).1, fun hfailed => absurd hfailed Bool.false_ne_true⟩
      (.inl hspeed)
  · rw [if_neg hspeed, or_iff_right hspeed]
    have htook := endpointRings_took (s := start pool) hs numEpConfigs
    by_cases hring : commandRing = nullptr
    · refine iff_of_false (fun hreported => hreported.1 (mem_use.mpr (.inl hring))) ?_
      exact fun hall => hall.1 hring
    · rw [and_iff_right hring]
      exact (htook.use fun hnull => absurd hnull hring).reported_iff

theorem configureEndpoints_sane {pool : MemoryPool} (hs : pool.Sane) (commandRing : BitVec 64)
    (portSpeed numEpConfigs : ℕ) :
    ((start pool).configureEndpoints commandRing portSpeed numEpConfigs).2.pool.Sane := by
  unfold configureEndpoints
  split
  · exact hs
  · exact (endpointRings_took (s := start pool) hs numEpConfigs).sane

/-- An object of a device. -/
def deviceRequest (sizeofDevice : BitVec 32) : Request := ⟨sizeofDevice.toNat, 64, 4096⟩

/-- What a slot needs, with the pointer that it has. -/
def slotRequests (sizeofDevice : BitVec 32) (device : BitVec 64) : List Request :=
  (if device = nullptr then [deviceRequest sizeofDevice] else []) ++ [ringRequest, bufferRequest]

theorem allocDevice_allocated (hs : s.pool.Sane) (sizeofDevice : BitVec 32) :
    ∃ p s', s.allocMem (sizeofDevice.setWidth 64 * 1#64) 64#32 4096#32 = (p, s') ∧
      Allocated s (deviceRequest sizeofDevice) p s' := by
  have hsize : (sizeofDevice.setWidth 64 * 1#64).toNat = sizeofDevice.toNat := by
    have hlt := sizeofDevice.isLt
    rw [BitVec.mul_one, BitVec.toNat_setWidth]
    exact Nat.mod_eq_of_lt (by omega)
  have halloc := allocMem_allocated hs (served_object (sizeofDevice.setWidth 64 * 1#64)
    (by rw [hsize]; exact sizeofDevice.isLt.le))
  rw [MemoryPool.request, hsize] at halloc
  exact halloc

/-- The device is found: its default ring is set up, and the command pushed. -/
theorem addressed_reported_iff {pool : MemoryPool} {device commandRing : BitVec 64}
    (htook : Took (start pool) rs s) (hdevice : device ≠ nullptr) :
    Reported .kSuccess ((s.setTransferRing.use device).use commandRing) ↔
      commandRing ≠ nullptr ∧
        Fits pool.poolEnd pool.allocPtr.toNat (rs ++ [ringRequest, bufferRequest]) := by
  by_cases hring : commandRing = nullptr
  · refine iff_of_false (fun hreported => hreported.1 (mem_use.mpr (.inl hring))) ?_
    exact fun hall => hall.1 hring
  · rw [and_iff_right hring]
    exact (((htook.trans (setTransferRing_took htook.sane)).use fun hnull =>
      absurd hnull hdevice).use fun hnull => absurd hnull hring).reported_iff

/-- A slot without a device gets one. -/
theorem allocDevice_empty (hs : s.pool.Sane) (sizeofDevice : BitVec 32) {slotId : BitVec 8}
    (hslot : ¬ Controller.kDeviceSize < slotId) :
    ∃ p s', Allocated s (deviceRequest sizeofDevice) p s' ∧
      s.allocDevice sizeofDevice nullptr slotId = (p, s'.use p) := by
  obtain ⟨p, s', hcall, halloc⟩ := allocDevice_allocated hs sizeofDevice
  refine ⟨p, s', halloc, ?_⟩
  rw [allocDevice, if_neg hslot, if_neg (not_not_intro rfl), allocArray, hcall]

theorem addressDevice_reported_iff {pool : MemoryPool} (hs : pool.Sane) (commandRing : BitVec 64)
    (sizeofDevice : BitVec 32) (device : BitVec 64) (slotId : BitVec 8) :
    ∃ err p s, (start pool).addressDevice commandRing sizeofDevice device slotId = (err, p, s) ∧
      s.pool.Sane ∧
      (Reported err s ↔ (slotId ≤ Controller.kDeviceSize → commandRing ≠ nullptr ∧
        Fits pool.poolEnd pool.allocPtr.toNat (slotRequests sizeofDevice device))) := by
  by_cases hslot : Controller.kDeviceSize < slotId
  · rw [addressDevice, allocDevice, if_pos hslot, findBySlot, if_pos hslot, if_pos rfl]
    refine ⟨_, _, _, rfl, hs, iff_of_true ⟨(start_clean pool).1, fun _ => rfl⟩ ?_⟩
    exact fun hle => absurd hslot (BitVec.not_lt.mpr hle)
  · rw [imp_iff_right (BitVec.not_lt.mp hslot), slotRequests]
    -- the object of the device is only asked for in an empty slot
    by_cases hdevice : device = nullptr
    · subst hdevice
      obtain ⟨p, s₁, halloc, hcall⟩ := allocDevice_empty (s := start pool) hs sizeofDevice hslot
      have htook : Took (start pool) [deviceRequest sizeofDevice] (s₁.use p) := halloc.use
      rw [addressDevice, hcall, findBySlot, if_neg hslot, if_pos rfl]
      by_cases hp : p = nullptr
      · -- the device is constructed at the null pointer before the slot is found empty
        rw [if_pos hp]
        refine ⟨_, _, _, rfl, htook.sane, iff_of_false ?_ ?_⟩
        · exact fun hreported => hreported.1 (mem_use.mpr (.inl hp))
        · exact fun hall => halloc.null.mp hp ⟨hall.2.1, trivial⟩
      · rw [if_neg hp]
        refine ⟨_, _, _, rfl, ?_, addressed_reported_iff htook hp⟩
        rw [pool_use, pool_use]
        exact (setTransferRing_took htook.sane).sane
    · rw [addressDevice, allocDevice, if_neg hslot, if_pos hdevice, findBySlot, if_neg hslot,
        if_neg hdevice, if_neg hdevice]
      refine ⟨_, _, _, rfl, ?_, addressed_reported_iff (took_nil (s := start pool) hs) hdevice⟩
      rw [pool_use, pool_use]
      exact (setTransferRing_took (s := start pool) hs).sane

theorem Took.null_of_exhausted {pool : MemoryPool} (h : Took (start pool) rs s)
    (hexhausted : s.exhausted = true) : nullptr ∈ s.uses :=
  h.null.mpr (.inr ((h.exhausted.mp hexhausted).resolve_left Bool.false_ne_true))

/-- What is checked reports its own allocations, and nothing from before. -/
theorem Checked.reported_iff {err : Error} (h : Checked s err s')
    (hnull : s.exhausted = true → nullptr ∈ s.uses) : Reported err s' ↔ Reported .kSuccess s := by
  unfold Reported
  rw [h.null]
  constructor
  · intro hreported
    exact ⟨hreported.1, fun hexhausted => absurd (hnull hexhausted) hreported.1⟩
  · intro hreported
    refine ⟨hreported.1, fun hexhausted => (h.exhausted hexhausted).resolve_left fun hbefore => ?_⟩
    exact hreported.1 (hnull hbefore)

/-- The device manager and the rings are checked, the scratchpad between them is not. -/
theorem controllerInitialize_reported_iff {pool : MemoryPool} (hs : pool.Sane)
    (commandRing : BitVec 64) (hcsparams2 : BitVec 32) :
    ∃ err buf s, (start pool).controllerInitialize commandRing hcsparams2 = (err, buf, s) ∧
      s.pool.Sane ∧
      (Reported err s ↔ (Fits pool.poolEnd pool.allocPtr.toNat devmgrRequests →
        Fits pool.poolEnd pool.allocPtr.toNat (devmgrRequests ++
          scratchpadRequests (maxScratchpadBuffers hcsparams2).toNat))) := by
  have hslots : Controller.kDeviceSize.setWidth 64 = 8#64 := by decide
  rw [controllerInitialize, hslots]
  obtain ⟨contexts, s, ⟨hnot, hsane, huses, hcall⟩ | ⟨hcontexts, hfits, htook, hcall⟩⟩ :=
    devmgrInitialize_cases (s := start pool) hs
  · rw [hcall, if_pos (show Error.kNoEnoughMemory.failed = true from rfl)]
    refine ⟨_, _, _, rfl, hsane, iff_of_true ⟨?_, fun _ => rfl⟩ fun hfits => absurd hfits hnot⟩
    rw [huses]
    exact (start_clean pool).1
  · rw [hcall, if_neg (show ¬ Error.kSuccess.failed = true from Bool.false_ne_true)]
    have hall := (htook.trans (scratchpad_took htook.sane (maxScratchpadBuffers hcsparams2))).use
      fun hnull => absurd hnull hcontexts
    obtain ⟨err, buf, s', hrings, hchecked⟩ := initializeRings_checked hall.sane
    rw [hrings]
    refine ⟨_, _, _, rfl, hchecked.sane, ?_⟩
    have hdevmgr : Fits pool.poolEnd pool.allocPtr.toNat devmgrRequests := hfits
    rw [imp_iff_right hdevmgr]
    exact (hchecked.reported_iff hall.null_of_exhausted).trans hall.reported_iff

end PoolLog

/-! ## Runs -/

namespace PoolCall

variable {sizeofDevice : BitVec 32} {s s' : PoolState}

/-- No null pointer is used in a call, and it returns an error when an allocation of it fails. -/
def Reports (sizeofDevice : BitVec 32) (s : PoolState) (call : PoolCall) : Prop :=
  PoolLog.Reported (call.perform sizeofDevice s).1 (call.perform sizeofDevice s).2.1

/-- The requests fit behind what the pool gave away. -/
def FitsPool (s : PoolState) (rs : List Request) : Prop :=
  Fits s.pool.poolEnd s.pool.allocPtr.toNat rs

/-- There is room for what a call takes without a check, and a command ring for its command. -/
def HasRoom (sizeofDevice : BitVec 32) (s : PoolState) : PoolCall → Prop
  | controllerInitialize hcsparams2 =>
    FitsPool s PoolLog.devmgrRequests → FitsPool s (PoolLog.devmgrRequests ++
      PoolLog.scratchpadRequests (PoolLog.maxScratchpadBuffers hcsparams2).toNat)
  | enableSlot => s.commandRing ≠ nullptr
  | addressDevice slotId =>
    slotId ≤ Controller.kDeviceSize → s.commandRing ≠ nullptr ∧
      FitsPool s (PoolLog.slotRequests sizeofDevice (s.devices slotId))
  | configureEndpoints portSpeed numEpConfigs =>
    portSpeed = 0 ∨ kSuperSpeedPlus < portSpeed ∨
      s.commandRing ≠ nullptr ∧ FitsPool s (PoolLog.endpointRequests numEpConfigs)
  | newClassDriver _ => True

theorem enableSlot_reports_iff : enableSlot.Reports sizeofDevice s ↔ s.commandRing ≠ nullptr := by
  have hstart := PoolLog.start_clean s.pool
  unfold Reports PoolLog.Reported
  rw [perform, PoolLog.mem_use, or_iff_left hstart.1]
  exact and_iff_left fun hexhausted => absurd hexhausted Bool.false_ne_true

/-- A call reports what it does not get exactly where there is room. -/
theorem reports_iff (hs : s.pool.Sane) (call : PoolCall) :
    call.Reports sizeofDevice s ↔ call.HasRoom sizeofDevice s := by
  cases call with
  | controllerInitialize hcsparams2 =>
    obtain ⟨err, buf, log, hcall, -, hiff⟩ :=
      PoolLog.controllerInitialize_reported_iff hs s.commandRing hcsparams2
    rw [Reports, perform, hcall]
    exact hiff
  | enableSlot => exact enableSlot_reports_iff
  | addressDevice slotId =>
    obtain ⟨err, device, log, hcall, -, hiff⟩ := PoolLog.addressDevice_reported_iff hs
      s.commandRing sizeofDevice (s.devices slotId) slotId
    rw [Reports, perform, hcall]
    exact hiff
  | configureEndpoints portSpeed numEpConfigs =>
    rw [Reports, perform]
    exact PoolLog.configureEndpoints_reported_iff hs s.commandRing portSpeed numEpConfigs
  | newClassDriver sizeofDriver =>
    rw [Reports, perform]
    exact iff_of_true ⟨(PoolLog.start_clean _).1, fun hfailed => absurd hfailed Bool.false_ne_true⟩
      trivial

theorem newClassDriver_sane (hs : s.pool.Sane) (sizeofDriver : BitVec 32) :
    ∃ p pool, s.pool.allocMem (sizeofDriver.setWidth 64) 0#32 0#32 = (p, pool) ∧ pool.Sane := by
  have hsize : (sizeofDriver.setWidth 64).toNat ≤ 2 ^ 32 := by
    have hlt := sizeofDriver.isLt
    rw [BitVec.toNat_setWidth]
    exact (Nat.mod_le _ _).trans hlt.le
  exact MemoryPool.allocMem_keeps hs ⟨hsize, .inl rfl, by decide, .inl rfl, by decide⟩

theorem perform_sane (hs : s.pool.Sane) (call : PoolCall) :
    (call.perform sizeofDevice s).2.2.pool.Sane := by
  cases call with
  | controllerInitialize hcsparams2 =>
    obtain ⟨err, buf, log, hcall, hsane, -⟩ :=
      PoolLog.controllerInitialize_reported_iff hs s.commandRing hcsparams2
    rw [perform, hcall]
    exact hsane
  | enableSlot => exact hs
  | addressDevice slotId =>
    obtain ⟨err, device, log, hcall, hsane, -⟩ := PoolLog.addressDevice_reported_iff hs
      s.commandRing sizeofDevice (s.devices slotId) slotId
    rw [perform, hcall]
    exact hsane
  | configureEndpoints portSpeed numEpConfigs =>
    rw [perform]
    exact PoolLog.configureEndpoints_sane hs s.commandRing portSpeed numEpConfigs
  | newClassDriver sizeofDriver =>
    obtain ⟨p, pool, hcall, hsane⟩ := newClassDriver_sane hs sizeofDriver
    rw [perform, hcall]
    exact hsane

theorem step_sane (hs : s.pool.Sane) {call : PoolCall}
    (h : call.step sizeofDevice s = some s') : s'.pool.Sane :=
  Option.some.inj h ▸ perform_sane hs call

/-- In a run of calls null pointers are never used and failures reported exactly when there is
room for every call. -/
theorem poolReported_iff (sizeofDevice : BitVec 32) (s : PoolState) (hs : s.pool.Sane)
    (calls : List PoolCall) :
    InputRun.Throughout (fun s call => call.step sizeofDevice s)
        (fun s call => call.Reports sizeofDevice s) s calls ↔
      InputRun.Throughout (fun s call => call.step sizeofDevice s)
        (fun s call => call.HasRoom sizeofDevice s) s calls :=
  InputRun.throughout_congr (R := fun s => s.pool.Sane) (fun _ _ _ hs _ h => step_sane hs h)
    (fun _ call hs => reports_iff hs call) hs

/-- The state at the start, with the pool at 2 MiB. -/
def fresh : PoolState := ⟨.new 0x200000#64, fun _ => nullptr, nullptr⟩

theorem poolReported_iff_fresh :
    fresh.pool.Sane ∧
    (InputRun.Throughout (fun s call => call.step 1024#32 s)
        (fun s call => call.Reports 1024#32 s) fresh
        [controllerInitialize 0#32, enableSlot, addressDevice 1#8, configureEndpoints 3 2] ↔
      InputRun.Throughout (fun s call => call.step 1024#32 s)
        (fun s call => call.HasRoom 1024#32 s) fresh
        [controllerInitialize 0#32, enableSlot, addressDevice 1#8, configureEndpoints 3 2]) :=
  have hs : fresh.pool.Sane := MemoryPool.sane_new (by decide) (by decide)
  ⟨hs, poolReported_iff 1024#32 fresh hs _⟩

/-- A controller that announces 32 scratchpad buffers: there are 31 pages for them, and the last
entry of the array is null. -/
theorem scratchpadPage_null :
    (PoolLog.maxScratchpadBuffers 0x200000#32).toNat = 32 ∧
    ¬ InputRun.Throughout (fun s call => call.step 1024#32 s)
        (fun s call => call.Reports 1024#32 s) fresh [controllerInitialize 0x200000#32] := by
  refine ⟨by decide, fun hall => hall.1.1 ?_⟩
  show nullptr ∈ ((controllerInitialize 0x200000#32).perform 1024#32 fresh).2.1.uses
  decide +kernel

end PoolCall

end TommyOS.Usb
