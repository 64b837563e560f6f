import TommyOS.Usb.ControllerStart
import TommyOS.Usb.PoolAllocations

/-!
# The driver and the controller during the start

What the controller and the firmware may do to the registers while the driver starts the
controller, and what every access of the driver must respect: nothing but the question while the
firmware owns the controller, a reset only of a halted controller that the firmware has let go,
settings only after the reset, and the controller runs only on the buffers that were allocated for
it.
-/

namespace TommyOS.Usb

open DeviceProgram

/-! ## The list of the extended capabilities -/

/-- The identifiers and the next pointers. -/
abbrev ExtendedHeaders := ℕ → BitVec 8 × BitVec 8

def HostRegisters.headers (r : HostRegisters) : ExtendedHeaders := fun p =>
  (ExtendedRegister.capabilityId (r.extended p), ExtendedRegister.nextPointer (r.extended p))

/-- The first legacy support capability of the list. -/
inductive LegacySupport (headers : ExtendedHeaders) : Option ℕ → ℕ → Prop where
  | here {p : ℕ} : (headers p).1 = 1#8 → LegacySupport headers (some p) p
  | later {p q : ℕ} : (headers p).1 ≠ 1#8 →
      LegacySupport headers (addOrNull p (headers p).2.toNat) q → LegacySupport headers (some p) q

/-- The search ends within `n` elements. -/
def SearchEnds (headers : ExtendedHeaders) : ℕ → Option ℕ → Prop
  | _, none => True
  | 0, some _ => False
  | n + 1, some p =>
    (headers p).1 = 1#8 ∨ SearchEnds headers n (addOrNull p (headers p).2.toNat)

def CapabilityRegisters.firstExtended (cap : CapabilityRegisters) : Option ℕ :=
  addOrNull 0 cap.xhciExtendedCapabilitiesPointer.toNat

/-! ## What the controller may do -/

/-- What the driver has set, without the bits that the controller changes. -/
structure HostSettings where
  usbcmd : BitVec 32
  config : BitVec 32
  dcbaap : BitVec 64
  crcr : BitVec 64
  interruptEnable : Bool
  erstsz : BitVec 32
  erstba : BitVec 64
  dequeuePointer : BitVec 64

namespace HostRegisters

/-- A reset is going on: it was asked for, or the controller is not ready yet. -/
def Resetting (r : HostRegisters) : Prop :=
  r.hostControllerReset = true ∨ r.controllerNotReady = true

/-- The bit 3 of `CRCR` says whether the ring runs. -/
def settings (r : HostRegisters) : HostSettings where
  usbcmd := r.usbcmd
  config := r.config
  dcbaap := r.dcbaap
  crcr := BitField.set r.crcr 3 0#1
  interruptEnable := r.iman.getLsbD 1
  erstsz := r.interrupter.erstsz
  erstba := r.interrupter.erstba
  dequeuePointer := ERDP.pointer r.interrupter.erdp

end HostRegisters

/-- A controller that runs is not halted, and no reset is going on. -/
structure Fresh (r : HostRegisters) : Prop where
  ready : ¬ r.Resetting
  coherent : r.hostControllerHalted = true → r.runStop = false

/-- The firmware owns the controller. -/
def FirmwareOwns (first : Option ℕ) (r : HostRegisters) : Prop :=
  ∃ p, LegacySupport r.headers first p ∧ USBLEGSUP.hcBiosOwnedSemaphore (r.extended p) = true

/-- A step of a controller that the firmware does not own. Outside of a reset the settings stay, a
halted controller halts until it is run, and a running one halts only when it is stopped, for there
is no host system error; a reset leaves a halted controller. -/
structure HardwareStep (r r' : HostRegisters) : Prop where
  resetRequest : r'.hostControllerReset = true → r.hostControllerReset = true
  resetting : r'.Resetting → r.Resetting
  settings : ¬ r.Resetting → r'.settings = r.settings
  halted : ¬ r.Resetting → r.runStop = false → r.hostControllerHalted = true →
    r'.hostControllerHalted = true
  stopped : ¬ r.Resetting → r.runStop = true → r'.hostControllerHalted = true →
    r.hostControllerHalted = true
  reset : r.Resetting → ¬ r'.Resetting →
    r'.hostControllerHalted = true ∧ r'.runStop = false

/-- A step of the controller or of the firmware, which may do with a controller that it owns what it
likes: run, stop, reset and set it. It leaves the legacy support capability alone until the system
asks for the controller, and what it lets go then is not in a reset, and it does not take it
back. -/
structure HostStep (first : Option ℕ) (r r' : HostRegisters) : Prop where
  headers : r'.headers = r.headers
  untouched : ∀ p, LegacySupport r.headers first p →
    USBLEGSUP.hcOsOwnedSemaphore (r.extended p) = false → r'.extended p = r.extended p
  owned : ∀ p, LegacySupport r.headers first p →
    USBLEGSUP.hcOsOwnedSemaphore (r.extended p) = true →
    USBLEGSUP.hcOsOwnedSemaphore (r'.extended p) = true
  firmwareOwns : FirmwareOwns first r' → FirmwareOwns first r
  letsGo : FirmwareOwns first r → ¬ FirmwareOwns first r' → Fresh r'
  controller : ¬ FirmwareOwns first r → HardwareStep r r'

/-! ## What the driver must respect -/

/-- The controller is told of the memory. -/
structure SetUp (memory : HostMemory) (c : HostSettings) : Prop where
  maxSlots : BitField.get c.config 0 8 = Controller.kDeviceSize
  deviceContexts : memory.deviceContexts.toNat < 2 ^ 32 → c.dcbaap = memory.deviceContexts
  ringCycleState : c.crcr.getLsbD 0 = true
  commandRing : CRCR_Bitmap.commandRingPointer.pointer c.crcr = memory.commandRing
  segmentTableSize : BitField.get c.erstsz 0 16 = 1#16
  segmentTable :
    ERSTBA_Bitmap.eventRingSegmentTableBaseAddress.pointer c.erstba = memory.segmentTable
  eventRing : c.dequeuePointer = memory.eventRing
  interruptEnable : c.interruptEnable = true
  interrupterEnable : c.usbcmd.getLsbD 2 = true

/-- At the start the firmware may own the controller; where it does, it has not been asked for it
yet. -/
structure AtStart (first : Option ℕ) (r : HostRegisters) : Prop where
  fresh : ¬ FirmwareOwns first r → Fresh r
  unasked : FirmwareOwns first r → ∀ p, LegacySupport r.headers first p →
    USBLEGSUP.hcOsOwnedSemaphore (r.extended p) = false

/-- The system has asked for the controller, where there is firmware that might own it. -/
def Owned (first : Option ℕ) (r : HostRegisters) : Prop :=
  ∀ p, LegacySupport r.headers first p → USBLEGSUP.hcOsOwnedSemaphore (r.extended p) = true

/-- The firmware has let the controller go. -/
structure Released (first : Option ℕ) (r : HostRegisters) : Prop extends Fresh r where
  letGo : ¬ FirmwareOwns first r

/-- Let go by the firmware, halted, and no reset is going on. -/
structure Idle (first : Option ℕ) (r : HostRegisters) : Prop where
  letGo : ¬ FirmwareOwns first r
  ready : ¬ r.Resetting
  halted : r.hostControllerHalted = true
  stopped : r.runStop = false

/-- The controller runs, on its memory if `Initialize` has succeeded. -/
structure Running (first : Option ℕ) (err : Error) (memory : HostMemory) (r : HostRegisters) :
    Prop where
  letGo : ¬ FirmwareOwns first r
  ready : ¬ r.Resetting
  runStop : r.runStop = true
  notHalted : r.hostControllerHalted = false
  setUp : err = .kSuccess → SetUp memory r.settings

/-- The write that asks the firmware for the controller. -/
def Asks (first : Option ℕ) (r r' : HostRegisters) : Prop :=
  ∃ p, LegacySupport r.headers first p ∧
    r' = r.setExtended p (USBLEGSUP.setHcOsOwnedSemaphore (r.extended p))

/-- What an access of the driver respects, when `Initialize` returns `err`. -/
structure StartGuarantee (first : Option ℕ) (err : Error) (memory : HostMemory)
    (r r' : HostRegisters) : Prop where
  firmware : FirmwareOwns first r → r' = r ∨ Asks first r r'
  extended : r'.extended = r.extended ∨ Asks first r r'
  reset : r'.hostControllerReset = true →
    r.hostControllerReset = true ∨ Idle first r ∧ r'.runStop = false ∧ Owned first r
  settings : r'.settings = { r.settings with usbcmd := r'.usbcmd } ∨ Idle first r
  run : r'.runStop = true →
    r.runStop = true ∨ (err = .kSuccess → Idle first r ∧ SetUp memory r.settings)

theorem StartGuarantee.refl (first : Option ℕ) (err : Error) (memory : HostMemory)
    (r : HostRegisters) : StartGuarantee first err memory r r where
  firmware _ := .inl rfl
  extended := .inl rfl
  reset := .inl
  settings := .inl rfl
  run := .inl

/-- The waits of the driver that a controller and its firmware answer. -/
structure Answering (first : Option ℕ)
    (answers : (HostRegisters → Prop) → (HostRegisters → Bool) → Prop) : Prop where
  handsOver : ∀ p, answers
    (fun r => LegacySupport r.headers first p ∧
      USBLEGSUP.hcOsOwnedSemaphore (r.extended p) = true)
    (ownedByOs p)
  halts : answers (fun r => ¬ FirmwareOwns first r ∧ ¬ r.Resetting ∧ r.runStop = false) halted
  resets : answers (fun r => ¬ FirmwareOwns first r ∧ (r.Resetting ∨ Idle first r)) resetDone
  getsReady : answers
    (fun r => r.hostControllerReset = false ∧ ¬ FirmwareOwns first r ∧
      (r.Resetting ∨ Idle first r)) controllerReady
  starts : answers (fun r => ¬ FirmwareOwns first r ∧ ¬ r.Resetting ∧ r.runStop = true) started

def startContract (first : Option ℕ) (err : Error) (memory : HostMemory)
    (answers : (HostRegisters → Prop) → (HostRegisters → Bool) → Prop) :
    Contract HostRegisters where
  device := HostStep first
  guarantee := StartGuarantee first err memory
  guarantee_refl := .refl first err memory
  answers := answers

/-! ## The memory -/

/-- The rings that `Initialize` gets from the pool, beside the device context array. -/
def ringMemory (s : PoolLog) (deviceContexts : BitVec 64) : HostMemory :=
  let cr := s.ringInitialize 32#64
  let buf := (cr.2.2.use cr.2.1).allocArray (BitVec.ofNat 64 sizeofTRB) 32#64 64#32 0x10000#32
  let erst := (buf.2.use buf.1).allocArray sizeofEventRingSegmentTableEntry 1#64 64#32 0x10000#32
  ⟨deviceContexts, cr.2.1, buf.1, erst.1⟩

/-- The pool when `Initialize` comes to the rings. -/
def ringLog (s : PoolLog) (hcsparams2 : BitVec 32) : PoolLog :=
  let devmgr := s.devmgrInitialize (Controller.kDeviceSize.setWidth 64)
  (devmgr.2.2.scratchpad (PoolLog.maxScratchpadBuffers hcsparams2)).use devmgr.2.1

/-- The pointers that `Initialize` gets from the pool. -/
def controllerMemory (s : PoolLog) (hcsparams2 : BitVec 32) : HostMemory :=
  ringMemory (ringLog s hcsparams2) (s.devmgrInitialize (Controller.kDeviceSize.setWidth 64)).2.1

/-- The error of a call that also returns a buffer. -/
def returnedError (result : Error × BitVec 64 × PoolLog) : Error := result.1

/-- The error of `Initialize`, which does not depend on the registers. -/
def initializeError (s : PoolLog) (hcsparams2 : BitVec 32) : Error :=
  returnedError (s.controllerInitialize nullptr hcsparams2)

/-- The device manager gets its two arrays. Where it does not, the kernel runs the controller
without asking the firmware for it. -/
def DeviceManagerServed (s : PoolLog) : Prop :=
  (s.devmgrInitialize (Controller.kDeviceSize.setWidth 64)).1.failed = false

/-- The buffers lie at multiples of 64. -/
inductive HostMemory.Aligned : HostMemory → Prop where
  | mk {deviceContexts commandRing eventRing segmentTable : BitVec 64}
      (hcontexts : 64 ∣ deviceContexts.toNat) (hcommand : 64 ∣ commandRing.toNat)
      (hevent : 64 ∣ eventRing.toNat) (hsegment : 64 ∣ segmentTable.toNat) :
      Aligned ⟨deviceContexts, commandRing, eventRing, segmentTable⟩

namespace PoolLog

variable {s : PoolLog}

theorem allocMem_dvd (hs : s.pool.Sane) {size : BitVec 64} {boundary : BitVec 32}
    (hserved : MemoryPool.Served size 64#32 boundary) :
    64 ∣ (s.allocMem size 64#32 boundary).1.toNat := by
  have hw := MemoryPool.noWrap_of_sane hs hserved
  have hdvd : 64 ∣ (s.pool.placed size 64#32 boundary).toNat :=
    MemoryPool.dvd_placed hserved.aligned hserved.bounded hw (by decide)
  unfold allocMem
  rw [MemoryPool.allocMem_eq hw]
  split
  · exact Nat.dvd_zero 64
  · exact hdvd

theorem allocArray_dvd (hs : s.pool.Sane) {sizeofT numObj : BitVec 64} {boundary : BitVec 32}
    (hserved : MemoryPool.Served (sizeofT * numObj) 64#32 boundary) :
    64 ∣ (s.allocArray sizeofT numObj 64#32 boundary).1.toNat :=
  allocMem_dvd hs hserved

theorem ringInitialize_dvd (hs : s.pool.Sane) : 64 ∣ (s.ringInitialize 32#64).2.1.toNat := by
  have hserved := served_ring (BitVec.ofNat 64 sizeofTRB * 32#64) (by decide)
  obtain ⟨buf, s', hcall, -⟩ := allocMem_allocated hs hserved
  have hdvd := allocMem_dvd hs hserved
  rw [hcall] at hdvd
  rw [ringInitialize, allocArray, hcall]
  by_cases hbuf : buf = nullptr
  · simp only [if_pos hbuf]
    exact hdvd
  · simp only [if_neg hbuf]
    exact hdvd

theorem devmgrInitialize_dvd (hs : s.pool.Sane) :
    64 ∣ (s.devmgrInitialize 8#64).2.1.toNat := by
  have hserved : MemoryPool.Served (sizeofPointer * (8#64 + 1#64)) 0#32 0#32 :=
    ⟨by decide, .inl rfl, by decide, .inl rfl, by decide⟩
  obtain ⟨devices, s', hcall, halloc⟩ := allocMem_allocated hs hserved
  have hdvd := allocArray_dvd halloc.sane
    (served_object (sizeofPointer * (8#64 + 1#64)) (by decide))
  rw [devmgrInitialize, allocArray, hcall, devmgrContexts]
  generalize s'.allocArray sizeofPointer (8#64 + 1#64) 64#32 4096#32 = contexts at hdvd ⊢
  by_cases hdevices : devices = nullptr
  · simp only [if_pos hdevices]
    exact Nat.dvd_zero 64
  · simp only [if_neg hdevices]
    by_cases hcontexts : contexts.1 = nullptr
    · rw [if_pos hcontexts]
      exact hdvd
    · rw [if_neg hcontexts]
      exact hdvd

end PoolLog

theorem ringLog_sane {s : PoolLog} (hs : s.pool.Sane) (hcsparams2 : BitVec 32) :
    (ringLog s hcsparams2).pool.Sane := by
  have hdevmgr : (s.devmgrInitialize 8#64).2.2.pool.Sane := by
    obtain ⟨contexts, s', ⟨-, hsane, -, heq⟩ | ⟨-, -, htook, heq⟩⟩ :=
      PoolLog.devmgrInitialize_cases hs
    · rw [heq]
      exact hsane
    · rw [heq]
      exact htook.sane
  have hscratch := (PoolLog.scratchpad_took hdevmgr (PoolLog.maxScratchpadBuffers hcsparams2)).sane
  have hwidth : Controller.kDeviceSize.setWidth 64 = 8#64 := by decide
  unfold ringLog
  rw [hwidth, PoolLog.pool_use]
  exact hscratch

theorem ringMemory_aligned {s : PoolLog} (hs : s.pool.Sane) {deviceContexts : BitVec 64}
    (hcontexts : 64 ∣ deviceContexts.toNat) : (ringMemory s deviceContexts).Aligned := by
  have hcommand := PoolLog.ringInitialize_dvd hs
  have hring : (s.ringInitialize 32#64).2.2.pool.Sane := by
    obtain ⟨buf, s', halloc, ⟨-, heq⟩ | ⟨-, heq⟩⟩ := PoolLog.ringInitialize_cases hs
    · rw [heq]
      exact halloc.sane
    · rw [heq]
      exact halloc.sane
  unfold ringMemory
  generalize s.ringInitialize 32#64 = cr at hcommand hring
  have hlog : (cr.2.2.use cr.2.1).pool.Sane := by
    rw [PoolLog.pool_use]
    exact hring
  have hserved : MemoryPool.Served (BitVec.ofNat 64 sizeofTRB * 32#64) 64#32 0x10000#32 :=
    PoolLog.served_ring _ (by decide)
  obtain ⟨buf, s', hbuf, halloc⟩ := PoolLog.allocMem_allocated hlog hserved
  have hevent : 64 ∣ buf.toNat := by
    have hdvd := PoolLog.allocMem_dvd hlog hserved
    rwa [hbuf] at hdvd
  have hlog' : (s'.use buf).pool.Sane := by
    rw [PoolLog.pool_use]
    exact halloc.sane
  have hserved' : MemoryPool.Served (sizeofEventRingSegmentTableEntry * 1#64) 64#32 0x10000#32 :=
    PoolLog.served_ring _ (by decide)
  have hsegment := PoolLog.allocArray_dvd hlog' hserved'
  have hbuf' : (cr.2.2.use cr.2.1).allocArray (BitVec.ofNat 64 sizeofTRB) 32#64 64#32
      0x10000#32 = (buf, s') := hbuf
  dsimp only
  rw [hbuf']
  exact .mk hcontexts hcommand hevent hsegment

theorem controllerMemory_aligned {s : PoolLog} (hs : s.pool.Sane) (hcsparams2 : BitVec 32) :
    (controllerMemory s hcsparams2).Aligned :=
  ringMemory_aligned (ringLog_sane hs hcsparams2) (PoolLog.devmgrInitialize_dvd hs)

end TommyOS.Usb
