import TommyOS.Usb.DeviceInitialization

/-!
# The stages of a device

From its address to the reports of its driver a device goes through four stages; each says what
is on the rings of the device, and every handler of the device keeps the stage or goes on to the
next one. The default pipe is used for eight TRBs until the endpoints are configured, and for
the requests of the driver then; an endpoint of the driver has one transfer at a time. Here are
the stages and those up to the configuration of the endpoints.
-/

namespace TommyOS.Usb

namespace Device

/-! ## Stages -/

/-- The TRBs that ask for the descriptors and set the configuration. -/
def deviceTrbs (address : BitVec 64) : List TRB :=
  controlTrbs true (.getDescriptor descriptor.kDevice 0#8 bufSize) address bufSize

/-- The request for the configuration descriptor. -/
def configurationTrbs (address : BitVec 64) : List TRB :=
  controlTrbs true (.getDescriptor descriptor.kConfiguration 0#8 bufSize) address bufSize

/-- The request that sets the configuration. -/
def settingTrbs (configValue : BitVec 8) : List TRB :=
  controlTrbs false (.setConfiguration configValue) 0#64 0

/-- The one driver of a device, and its endpoint that sends the reports. -/
structure HasDriver (d : Device) (w : HIDBaseDriver) : Prop where
  drivers : d.drivers = [w]
  interruptIn : w.epInterruptIn.address ≠ 1
  endpoints : d.EndpointsSet

/-- A device before its initialization. -/
structure Blank (d : Device) : Prop where
  isInitialized : d.isInitialized = false
  drivers : d.drivers = []
  classDrivers : d.classDrivers 0 = none
  bufAddress : d.bufAddress ≠ 0#64
  setupStages : ∀ key value, ¬ d.setupStageMap.HasEntry key value
  pushed : ∀ i, d.pushedTo i = []

/-- The request that a device works on. -/
inductive Request (d : Device) : Prop where
  | device : d.initializePhase = 1 → d.drivers = [] → d.classDrivers 0 = none →
      d.pushedTo 0 = deviceTrbs d.bufAddress → Request d
  | configuration : d.initializePhase = 2 → d.drivers = [] → d.classDrivers 0 = none →
      d.pushedTo 0 = deviceTrbs d.bufAddress ++ configurationTrbs d.bufAddress → Request d
  | setting (w : HIDBaseDriver) (configValue : BitVec 8) : d.initializePhase = 3 →
      d.HasDriver w → w.initializePhase = 0 →
      d.pushedTo 0 = deviceTrbs d.bufAddress ++ configurationTrbs d.bufAddress ++
        settingTrbs configValue → Request d

/-- The TRBs behind the setup stages: each of the three transfers has one that completes it. -/
def SetupStages (d : Device) : Prop :=
  ∀ r, d.transferRings 0 = some r → ∀ key value, d.setupStageMap.HasEntry key value →
    ∃ k, (k = 0 ∨ k = 3 ∨ k = 6) ∧ key = Ring.slotAddress r.base (k + 1) ∧
      value = Ring.slotAddress r.base k

/-- A device before it has its driver's endpoints: only the default pipe is in use. -/
structure Opening (d : Device) : Prop where
  isInitialized : d.isInitialized = false
  bufAddress : d.bufAddress ≠ 0#64
  setupStages : d.SetupStages
  quiet : ∀ i, i ≠ 0 → d.pushedTo i = []

/-- A device while it is initialized. -/
structure Starting (d : Device) : Prop extends Opening d where
  request : d.Request

/-- A device with its driver: only the endpoint with the reports is in use, once the driver has
asked for them. -/
structure Running (d : Device) (w : HIDBaseDriver) : Prop where
  isInitialized : d.isInitialized = true
  driver : d.HasDriver w
  interrupts : ∀ i, i ≠ 0 → d.pushedTo i ≠ [] →
    i + 1 = w.epInterruptIn.address ∧ w.initializePhase = 2
  control : (d.pushedTo 0).length ≤ 38

/-- A device whose driver has not been called. -/
structure Prepared (d : Device) (w : HIDBaseDriver) : Prop extends Running d w where
  phase : w.initializePhase = 0
  length : (d.pushedTo 0).length = 8

variable {m : Machine} {d d' : Device} {w : HIDBaseDriver} {err : Error} {trb : TRB}
  {buf : ℕ → BitVec 8} {len : ℤ}

/-- The driver and its endpoints are not touched by what goes on on the rings. -/
theorem HasDriver.withRings (h : d.HasDriver w) (ctx : InputContext)
    (rings : ℕ → Option LoggedRing) (waiters : ArrayMap SetupData ℕ)
    (stages : ArrayMap (BitVec 64) (BitVec 64)) :
    HasDriver { d with
      inputContext := ctx, transferRings := rings, eventWaiters := waiters,
      setupStageMap := stages } w :=
  ⟨h.drivers, h.interruptIn, h.endpoints.epConfigs, h.endpoints.classDrivers⟩

theorem Running.congr (h : d.Running w) (hinit : d'.isInitialized = d.isInitialized)
    (hdriver : d'.HasDriver w) (hpushed : ∀ i, d'.pushedTo i = d.pushedTo i) : d'.Running w where
  isInitialized := hinit.trans h.isInitialized
  driver := hdriver
  interrupts := fun i hi hused => h.interrupts i hi (by rwa [hpushed i] at hused)
  control := by
    rw [hpushed 0]
    exact h.control

theorem Prepared.congr (h : d.Prepared w) (hinit : d'.isInitialized = d.isInitialized)
    (hdriver : d'.HasDriver w) (hpushed : ∀ i, d'.pushedTo i = d.pushedTo i) : d'.Prepared w where
  toRunning := h.toRunning.congr hinit hdriver hpushed
  phase := h.phase
  length := by
    rw [hpushed 0]
    exact h.length

theorem Prepared.quiet (h : d.Prepared w) {i : ℕ} (hi : i ≠ 0) : d.pushedTo i = [] := by
  by_contra hused
  have hphase := (h.interrupts i hi hused).2
  rw [h.phase] at hphase
  exact absurd hphase (by decide)

theorem length_deviceTrbs {address : BitVec 64} (h : address ≠ 0#64) :
    (deviceTrbs address).length = 3 := by
  unfold deviceTrbs controlTrbs
  rw [if_pos h]
  rfl

theorem length_configurationTrbs {address : BitVec 64} (h : address ≠ 0#64) :
    (configurationTrbs address).length = 3 := by
  unfold configurationTrbs controlTrbs
  rw [if_pos h]
  rfl

theorem length_settingTrbs (configValue : BitVec 8) : (settingTrbs configValue).length = 2 := rfl

/-- Until it is initialized a device has pushed at most eight TRBs. -/
theorem Starting.length_le (h : d.Starting) : (d.pushedTo 0).length ≤ 8 := by
  cases h.request with
  | device _ _ _ hpushed =>
    rw [hpushed, length_deviceTrbs h.bufAddress]
    decide
  | configuration _ _ _ hpushed =>
    rw [hpushed, List.length_append, length_deviceTrbs h.bufAddress,
      length_configurationTrbs h.bufAddress]
    decide
  | setting _ _ _ _ _ hpushed =>
    rw [hpushed, List.length_append, List.length_append, length_deviceTrbs h.bufAddress,
      length_configurationTrbs h.bufAddress, length_settingTrbs]

/-! ## The initialization -/

/-- What a handler does to a device that it gives at most some TRBs on the default pipe. -/
structure ControlOnly (d d' : Device) : Prop where
  inputContext : d'.inputContext = d.inputContext
  extend : d.Extends d'
  others : ∀ i, i ≠ 0 → d'.pushedTo i = d.pushedTo i

theorem ControlOnly.trans {d'' : Device} (h : ControlOnly d d') (h' : ControlOnly d' d'') :
    ControlOnly d d'' where
  inputContext := h'.inputContext.trans h.inputContext
  extend := h.extend.trans h'.extend
  others := fun i hi => (h'.others i hi).trans (h.others i hi)

theorem controlOnly_of_eq (hctx : d'.inputContext = d.inputContext)
    (hrings : d'.transferRings = d.transferRings) : ControlOnly d d' :=
  ⟨hctx, extends_of_eq hrings, fun i _ => pushedTo_congr (congrFun hrings i)⟩

/-- A request of the initialization. -/
theorem controlTransfer_opening {dirIn : Bool} {setupData : SetupData} {address : BitVec 64}
    {size : ℕ} {issuer : Option ℕ} (hopen : d.Opening) (hformed : d.RingsFormed)
    (hplace : (d.pushedTo 0).length = 0 ∨ (d.pushedTo 0).length = 3 ∨ (d.pushedTo 0).length = 6)
    (h : controlTransfer dirIn d kDefaultControlPipeID setupData address size issuer =
      some (err, d')) :
    d'.RingsFormed ∧ ControlOnly d d' ∧ d'.Opening ∧
      d'.pushedTo 0 = d.pushedTo 0 ++ controlTrbs dirIn setupData address size ∧
      ∃ rings waiters stages, d' =
        { d with transferRings := rings, eventWaiters := waiters, setupStageMap := stages } := by
  obtain ⟨-, hring, hformed', r, rings, waiters, hr, hd⟩ := controlTransfer_pushed hformed h
  have hothers : ∀ i, i ≠ 0 → d'.pushedTo i = d.pushedTo i := fun i hi => hring.other hi
  refine ⟨hformed', ⟨by rw [hd], hring.toExtends, hothers⟩, ?_, hring.pushed, rings, waiters, _, hd⟩
  refine ⟨by rw [hd]; exact hopen.isInitialized, by rw [hd]; exact hopen.bufAddress, ?_, ?_⟩
  · intro r' hr' key value hentry
    obtain ⟨r₀, r₁, hr₀, hrings, hbase, -⟩ := hring.rings
    obtain rfl := Option.some.inj (hr₀.symm.trans hr)
    have hbase' : r'.base = r₀.base := by
      rw [hrings, Function.update_self] at hr'
      rw [← Option.some.inj hr', hbase]
    rw [hd] at hentry
    rw [hbase']
    -- the map has the entries it had, and the one of this request
    rcases ArrayMap.hasEntry_of_put hentry with hold | ⟨rfl, rfl⟩
    · exact hopen.setupStages r₀ hr key value hold
    · rw [pushedTo_of_eq hr] at hplace
      refine ⟨r₀.pushed.length, hplace, ?_, ?_⟩
      · rw [Nat.mod_eq_of_lt (by omega)]
      · rw [Nat.mod_eq_of_lt (by omega)]
  · intro i hi
    rw [hothers i hi]
    exact hopen.quiet i hi

/-- The first request opens the initialization. -/
theorem startInitialize_cases (hformed : d.RingsFormed) (hblank : d.Blank)
    (h : d.startInitialize = some (err, d')) :
    d'.RingsFormed ∧ d'.Starting ∧ ControlOnly d d' := by
  unfold startInitialize getDescriptor controlIn at h
  have hopen : Opening { d with isInitialized := false, initializePhase := 1 } :=
    ⟨rfl, hblank.bufAddress,
      fun _ _ key value hentry => absurd hentry (hblank.setupStages key value),
      fun i _ => hblank.pushed i⟩
  obtain ⟨hformed', hcontrol, hopen', hpushed, rings, waiters, stages, hd⟩ :=
    controlTransfer_opening hopen (hformed.congr rfl)
      (.inl (congrArg List.length (hblank.pushed 0))) h
  refine ⟨hformed', ⟨hopen', ?_⟩, hcontrol.inputContext, hcontrol.extend, hcontrol.others⟩
  refine .device (by rw [hd]) (by rw [hd]; exact hblank.drivers)
    (by rw [hd]; exact hblank.classDrivers) ?_
  rw [hpushed, hd]
  show d.pushedTo 0 ++ _ = _
  rw [hblank.pushed 0]
  rfl

/-- The second request follows the first one. -/
theorem initializePhase1_cases (hformed : d.RingsFormed) (hopen : d.Opening)
    (hdrivers : d.drivers = []) (hclass : d.classDrivers 0 = none)
    (hpushed : d.pushedTo 0 = deviceTrbs d.bufAddress)
    (h : d.initializePhase1 buf = some (err, d')) :
    d'.RingsFormed ∧ d'.Starting ∧ ControlOnly d d' := by
  unfold initializePhase1 getDescriptor controlIn at h
  have hplace : (d.pushedTo 0).length = 3 := by rw [hpushed, length_deviceTrbs hopen.bufAddress]
  have hopen₁ : Opening
      { d with numConfigurations := buf 17, configIndex := 0#8, initializePhase := 2 } :=
    ⟨hopen.isInitialized, hopen.bufAddress, hopen.setupStages, hopen.quiet⟩
  obtain ⟨hformed', hcontrol, hopen', hpushed', rings, waiters, stages, hd⟩ :=
    controlTransfer_opening hopen₁ (hformed.congr rfl) (.inr (.inl hplace)) h
  refine ⟨hformed', ⟨hopen', ?_⟩, hcontrol.inputContext, hcontrol.extend, hcontrol.others⟩
  refine .configuration (by rw [hd]) (by rw [hd]; exact hdrivers) (by rw [hd]; exact hclass) ?_
  rw [hpushed', hd]
  show d.pushedTo 0 ++ _ = _
  rw [hpushed]
  rfl

/-- The third request follows the second one. -/
theorem initializePhase2_cases (hformed : d.RingsFormed) (hstart : d.Starting)
    (hdrivers : d.drivers = []) (hclass : d.classDrivers 0 = none)
    (hpushed : d.pushedTo 0 = deviceTrbs d.bufAddress ++ configurationTrbs d.bufAddress)
    (hvalid : ConfigurationDescriptorReader.ValidEndpoints buf len)
    (h : d.initializePhase2 m buf len = some (err, d')) :
    d'.RingsFormed ∧ d'.Starting ∧ ControlOnly d d' := by
  -- an answer of another type and a device without a driver change nothing
  have hsame : d' = d → d'.RingsFormed ∧ d'.Starting ∧ ControlOnly d d' := by
    rintro rfl
    exact ⟨hformed, hstart, controlOnly_of_eq rfl rfl⟩
  unfold initializePhase2 at h
  split at h
  · exact hsame (congrArg Prod.snd (Option.some.inj h)).symm
  · simp only [Option.bind_eq_bind, Option.bind_eq_some_iff] at h
    obtain ⟨⟨driver, d₁⟩, hread, h⟩ := h
    rcases readInterfaces_cases hvalid .start hdrivers hclass hread with ⟨rfl, rfl⟩ |
      ⟨rfl, hset, address, interfaceIndex, size, epConfigs, numEpConfigs, classDrivers, hd₁⟩
    · exact hsame (congrArg Prod.snd (Option.some.inj h)).symm
    · -- with a driver the configuration is set
      simp only at h
      unfold setConfiguration controlOut at h
      have hopen := hstart.toOpening
      -- both requests for descriptors are behind it, with three TRBs each
      have hplace : (d.pushedTo 0).length = 6 := by
        rw [hpushed, List.length_append, length_deviceTrbs hopen.bufAddress,
          length_configurationTrbs hopen.bufAddress]
      have hrings : d₁.transferRings = d.transferRings := by rw [hd₁]; rfl
      have hopen₁ : Opening { d₁ with initializePhase := 3 } := by
        rw [hd₁]
        exact ⟨hopen.isInitialized, hopen.bufAddress, hopen.setupStages, hopen.quiet⟩
      obtain ⟨hformed', hcontrol, hopen', hpushed', rings, waiters, stages, hd⟩ :=
        controlTransfer_opening hopen₁ (hformed.congr hrings)
          (.inr (.inr ((congrArg List.length (pushedTo_congr (congrFun hrings 0))).trans hplace))) h
      refine ⟨hformed', ⟨hopen', ?_⟩, ?_, ?_, ?_⟩
      · refine .setting (.new address interfaceIndex size) (buf 5) (by rw [hd])
          ⟨by rw [hd, hd₁]; rfl, Nat.zero_ne_one, ?_⟩ rfl ?_
        · rw [hd]
          exact ⟨hset.epConfigs, hset.classDrivers⟩
        · rw [hpushed', hd, hd₁]
          show d.pushedTo 0 ++ _ = _
          rw [hpushed]
          rfl
      · rw [hcontrol.inputContext, hd₁]
        rfl
      · intro i r hr hused
        exact hcontrol.extend i r (by rw [hrings, hr]) hused
      · intro i hi
        rw [hcontrol.others i hi]
        exact pushedTo_congr (congrFun hrings i)

/-- The driver has its endpoints. -/
theorem initializePhase3_cases (hformed : d.RingsFormed) (hopen : d.Opening)
    (hdriver : d.HasDriver w) (hphase : w.initializePhase = 0) (hlength : (d.pushedTo 0).length = 8)
    (h : d.initializePhase3 = some (err, d')) :
    d'.RingsFormed ∧ (∃ w, d'.Prepared w) ∧ ControlOnly d d' := by
  unfold initializePhase3 at h
  simp only [Option.bind_eq_bind, Option.bind_eq_some_iff, Option.some.injEq, Prod.mk.injEq] at h
  obtain ⟨d₁, hset, -, rfl⟩ := h
  obtain ⟨w', rfl, hphase', haddress⟩ := setEndpoints_cases hdriver.drivers
    hdriver.endpoints.epConfigs hdriver.interruptIn hset
  refine ⟨hformed.congr rfl, ⟨w', ?_⟩, controlOnly_of_eq rfl rfl⟩
  exact {
    isInitialized := rfl
    driver := ⟨rfl, haddress, hdriver.endpoints.epConfigs, hdriver.endpoints.classDrivers⟩
    interrupts := fun i hi hused => absurd (hopen.quiet i hi) hused
    control := by
      show (d.pushedTo 0).length ≤ 38
      omega
    phase := hphase'.trans hphase
    length := hlength }

/-! ## Events -/

/-- The memory of the machine is that of the rings. -/
def InMemory (m : Machine) (d : Device) : Prop :=
  ∀ i r, d.transferRings i = some r → ∀ n, n < 31 → m.trbAt (Ring.slotAddress r.base n) = r.buf n

/-- An event points to the TRB with a number on a ring of the device, which is still there. -/
def IssuedBy (trb : TRB) (d : Device) (i j : ℕ) : Prop :=
  ∃ r, d.transferRings i = some r ∧ j < r.pushed.length ∧ r.pushed.length ≤ j + 31 ∧
    TransferEventTRB.pointer trb = Ring.slotAddress r.base (j % 31)

/-- A configuration that a device answers with is for endpoints other than the default one. -/
def ValidAnswer (m : Machine) (trb : TRB) : Prop :=
  let issuerTrb := m.trbAt (TransferEventTRB.pointer trb)
  let buf := fun i => m.byteAt (issuerTrb.parameter + BitVec.ofNat 64 i)
  issuerTrb.trbType = DataStageTRB.type → buf 1 = descriptor.kConfiguration →
    ConfigurationDescriptorReader.ValidEndpoints buf (TransferEventTRB.transferLength trb issuerTrb)

/-- The TRBs of the last lap are found in their slots. -/
theorem trbAt_pushed (hmem : InMemory m d) {r : LoggedRing} {i k : ℕ}
    (hr : d.transferRings i = some r) (hwf : r.WellFormed) (hk : k < r.pushed.length)
    (hrecent : r.pushed.length ≤ k + 31) :
    ∃ cycle, m.trbAt (Ring.slotAddress r.base (k % 31)) = r.pushed[k].stamped cycle := by
  rw [hmem i r hr _ (Nat.mod_lt k (by decide))]
  exact hwf.recent k hk hrecent

/-- A TRB is in memory as it was pushed until the ring comes round. -/
theorem trbAt_slot (hmem : InMemory m d) (hformed : d.RingsFormed) {r : LoggedRing} {i k : ℕ}
    (hr : d.transferRings i = some r) (hk : k < r.pushed.length)
    (hrecent : r.pushed.length ≤ k + 31) :
    ∃ cycle, m.trbAt (Ring.slotAddress r.base (k % 31)) = r.pushed[k].stamped cycle :=
  trbAt_pushed hmem hr (hformed.wellFormed i r hr) hk hrecent

theorem deviceTrbs_eq {address : BitVec 64} (h : address ≠ 0#64) :
    ∃ data status, deviceTrbs address =
      [SetupStageTRB.make (.getDescriptor descriptor.kDevice 0#8 bufSize)
        SetupStageTRB.kInDataStage, data, status] := by
  unfold deviceTrbs controlTrbs
  rw [if_pos h]
  exact ⟨_, _, rfl⟩

theorem configurationTrbs_eq {address : BitVec 64} (h : address ≠ 0#64) :
    ∃ data status, configurationTrbs address =
      [SetupStageTRB.make (.getDescriptor descriptor.kConfiguration 0#8 bufSize)
        SetupStageTRB.kInDataStage, data, status] := by
  unfold configurationTrbs controlTrbs
  rw [if_pos h]
  exact ⟨_, _, rfl⟩

/-- Only the third of the setup stages sets the configuration. -/
theorem Starting.setup_at (h : d.Starting) {k : ℕ} (hk : k = 0 ∨ k = 3 ∨ k = 6)
    (hlt : k < (d.pushedTo 0).length) :
    ∃ setupData transferType,
      (d.pushedTo 0)[k]? = some (SetupStageTRB.make setupData transferType) ∧
      (setupData.request = request.kSetConfiguration → k = 6) := by
  obtain ⟨data₁, status₁, hdevice⟩ := deviceTrbs_eq h.bufAddress
  obtain ⟨data₂, status₂, hconfiguration⟩ := configurationTrbs_eq h.bufAddress
  have hget : ∀ descType, (SetupData.getDescriptor descType 0#8 bufSize).request ≠
      request.kSetConfiguration := fun _ => by
    show request.kGetDescriptor ≠ _
    decide
  -- the ring ends with the request that the device waits for
  cases h.request with
  | device _ _ _ hpushed =>
    rw [hpushed, hdevice] at hlt ⊢
    rcases hk with rfl | rfl | rfl
    · exact ⟨_, _, rfl, fun hset => absurd hset (hget _)⟩
    · exact absurd hlt (by simp)
    · exact absurd hlt (by simp)
  | configuration _ _ _ hpushed =>
    rw [hpushed, hdevice, hconfiguration] at hlt ⊢
    rcases hk with rfl | rfl | rfl
    · exact ⟨_, _, rfl, fun hset => absurd hset (hget _)⟩
    · exact ⟨_, _, rfl, fun hset => absurd hset (hget _)⟩
    · exact absurd hlt (by simp)
  | setting _ configValue _ _ _ hpushed =>
    rw [hpushed, hdevice, hconfiguration]
    rcases hk with rfl | rfl | rfl
    · exact ⟨_, _, rfl, fun hset => absurd hset (hget _)⟩
    · exact ⟨_, _, rfl, fun hset => absurd hset (hget _)⟩
    · exact ⟨_, _, rfl, fun _ => rfl⟩

/-- The answer to a request leads to the next one. -/
theorem onControlCompleted_starting {setupData : SetupData} {address : BitVec 64}
    (hformed : d.RingsFormed) (hstart : d.Starting)
    (hvalid : ∀ buf8, bytesAt m address = some buf8 → buf8 1 = descriptor.kConfiguration →
      ConfigurationDescriptorReader.ValidEndpoints buf8 len)
    (h : d.onControlCompleted m setupData address len = some (err, d')) :
    d'.RingsFormed ∧ ControlOnly d d' ∧ (d'.Starting ∨
      setupData.request = request.kSetConfiguration ∧ ∃ w, d'.Prepared w) := by
  -- an answer to anything else is an error, and the device goes on waiting
  have hsame : ∀ {e : Error}, some (e, d) = some (err, d') →
      d'.RingsFormed ∧ ControlOnly d d' ∧ (d'.Starting ∨
        setupData.request = request.kSetConfiguration ∧ ∃ w, d'.Prepared w) := by
    intro e heq
    rw [← (Prod.mk.inj (Option.some.inj heq)).2]
    exact ⟨hformed, controlOnly_of_eq rfl rfl, .inl hstart⟩
  unfold onControlCompleted at h
  rw [if_neg (by rw [hstart.isInitialized]; decide)] at h
  cases hstart.request with
  | device hphase hdrivers hclass hpushed =>
    rw [if_pos hphase] at h
    split at h
    · simp only [Option.bind_eq_bind, Option.bind_eq_some_iff] at h
      obtain ⟨buf8, -, h⟩ := h
      split at h
      · obtain ⟨hformed', hstart', hcontrol⟩ :=
          initializePhase1_cases hformed hstart.toOpening hdrivers hclass hpushed h
        exact ⟨hformed', hcontrol, .inl hstart'⟩
      · exact hsame h
    · exact hsame h
  | configuration hphase hdrivers hclass hpushed =>
    rw [if_neg (by rw [hphase]; decide), if_pos hphase] at h
    split at h
    · simp only [Option.bind_eq_bind, Option.bind_eq_some_iff] at h
      obtain ⟨buf8, hbuf8, h⟩ := h
      split at h
      · next htype =>
        obtain ⟨hformed', hstart', hcontrol⟩ := initializePhase2_cases hformed hstart hdrivers
          hclass hpushed (hvalid buf8 hbuf8 htype) h
        exact ⟨hformed', hcontrol, .inl hstart'⟩
      · exact hsame h
    · exact hsame h
  | setting w configValue hphase hdriver hwphase hpushed =>
    rw [if_neg (by rw [hphase]; decide), if_neg (by rw [hphase]; decide), if_pos hphase] at h
    split at h
    · next hrequest =>
      -- three TRBs for each descriptor and two for the configuration
      have hlength : (d.pushedTo 0).length = 8 := by
        rw [hpushed, List.length_append, List.length_append, length_deviceTrbs hstart.bufAddress,
          length_configurationTrbs hstart.bufAddress, length_settingTrbs]
      obtain ⟨hformed', hprepared, hcontrol⟩ :=
        initializePhase3_cases hformed hstart.toOpening hdriver hwphase hlength h
      exact ⟨hformed', hcontrol, .inr ⟨hrequest, hprepared⟩⟩
    · exact hsame h

theorem Starting.delete (h : d.Starting) (key : BitVec 64) :
    Starting { d with setupStageMap := d.setupStageMap.delete key } where
  isInitialized := h.isInitialized
  bufAddress := h.bufAddress
  setupStages := fun r hr _ _ hentry => h.setupStages r hr _ _ (ArrayMap.hasEntry_of_delete hentry)
  quiet := h.quiet
  request := by
    cases h.request with
    | device hphase hdrivers hclass hpushed => exact .device hphase hdrivers hclass hpushed
    | configuration hphase hdrivers hclass hpushed =>
      exact .configuration hphase hdrivers hclass hpushed
    | setting w configValue hphase hdriver hwphase hpushed =>
      exact .setting w configValue hphase (hdriver.withRings _ _ _ _) hwphase hpushed

theorem IssuedBy.used {i j : ℕ} (h : IssuedBy trb d i j) : d.pushedTo i ≠ [] := by
  obtain ⟨r, hr, hj, -, -⟩ := h
  rw [pushedTo_of_eq hr]
  exact List.ne_nil_of_length_pos (Nat.zero_lt_of_lt hj)

theorem bytesAt_eq_some {address : BitVec 64} {buf8 : ℕ → BitVec 8}
    (h : bytesAt m address = some buf8) :
    address ≠ 0#64 ∧ buf8 = fun i => m.byteAt (address + BitVec.ofNat 64 i) := by
  unfold bytesAt at h
  split at h
  · exact absurd h (by simp)
  · next hne => exact ⟨hne, (Option.some.inj h).symm⟩

/-- The setup stage is read back: the TRB behind the one that sets the configuration is the last
one of the initialization. -/
theorem Starting.request_at (h : d.Starting) (hformed : d.RingsFormed) (hmem : InMemory m d)
    {r : LoggedRing} (hr : d.transferRings 0 = some r) {k : ℕ} (hk : k = 0 ∨ k = 3 ∨ k = 6)
    (hlt : k < r.pushed.length)
    (hset : (SetupStageTRB.setupData (m.trbAt (Ring.slotAddress r.base k))).request =
      request.kSetConfiguration) : k = 6 := by
  have hlength := h.length_le
  rw [pushedTo_of_eq hr] at hlength
  obtain ⟨setupData, transferType, hat, hlast⟩ := h.setup_at hk (by rw [pushedTo_of_eq hr]; omega)
  obtain ⟨cycle, hsetup⟩ := trbAt_slot hmem hformed hr hlt (by omega)
  rw [pushedTo_of_eq hr, List.getElem?_eq_getElem hlt] at hat
  rw [Nat.mod_eq_of_lt (by omega), Option.some.inj hat] at hsetup
  rw [hsetup, SetupStageTRB.request_make] at hset
  exact hlast hset

/-! ## Events -/

/-- The branches of an event, with what led to each: the answers that come before the entry of the
setup stage is looked up, the completion of a normal TRB, and the three kinds of TRB for which an
entry is found and deleted. -/
inductive Dispatched (m : Machine) (d : Device) (trb : TRB) : Dispatch × Device → Prop
  | refused (err : Error) : Dispatched m d trb (.error err, d)
  | normal (htype : (m.trbAt (TransferEventTRB.pointer trb)).trbType = NormalTRB.type) :
    Dispatched m d trb
      (.onInterruptCompleted (TransferEventTRB.endpointID trb)
        (TransferEventTRB.transferLength trb (m.trbAt (TransferEventTRB.pointer trb))), d)
  | data {setupStage : BitVec 64}
    (hget : d.setupStageMap.get (TransferEventTRB.pointer trb) = some setupStage)
    (htype : (m.trbAt (TransferEventTRB.pointer trb)).trbType = DataStageTRB.type) :
    Dispatched m d trb
      (.onControlCompleted (SetupStageTRB.setupData (m.trbAt setupStage))
        (m.trbAt (TransferEventTRB.pointer trb)).parameter
        (TransferEventTRB.transferLength trb (m.trbAt (TransferEventTRB.pointer trb))),
        { d with setupStageMap := d.setupStageMap.delete (TransferEventTRB.pointer trb) })
  | status {setupStage : BitVec 64}
    (hget : d.setupStageMap.get (TransferEventTRB.pointer trb) = some setupStage)
    (htype : (m.trbAt (TransferEventTRB.pointer trb)).trbType = StatusStageTRB.type) :
    Dispatched m d trb
      (.onControlCompleted (SetupStageTRB.setupData (m.trbAt setupStage)) 0#64 0,
        { d with setupStageMap := d.setupStageMap.delete (TransferEventTRB.pointer trb) })
  | other {setupStage : BitVec 64}
    (hget : d.setupStageMap.get (TransferEventTRB.pointer trb) = some setupStage) :
    Dispatched m d trb
      (.error .kNotImplemented,
        { d with setupStageMap := d.setupStageMap.delete (TransferEventTRB.pointer trb) })

/-- The dispatch takes one of the cases. -/
theorem dispatched (m : Machine) (d : Device) (trb : TRB) :
    Dispatched m d trb (dispatch m d trb) := by
  unfold dispatch
  simp only
  split
  · exact .refused _
  · split
    · next htype => exact .normal htype
    · split
      · exact .refused _
      · next setupStage hget =>
        split
        · next htype => exact .data hget htype
        · split
          · next htype => exact .status hget htype
          · exact .other hget

/-- An event of the default pipe while a device is initialized: the last of its TRBs ends the
initialization. -/
theorem onTransferEventReceived_starting {j : ℕ} (hformed : d.RingsFormed) (hstart : d.Starting)
    (hmem : InMemory m d) (hissued : IssuedBy trb d 0 j) (hvalid : ValidAnswer m trb)
    (h : d.onTransferEventReceived m trb = some (err, d')) :
    d'.RingsFormed ∧ ControlOnly d d' ∧ (d'.Starting ∨ j = 7 ∧ ∃ w, d'.Prepared w) := by
  obtain ⟨r, hr, hj, hrecent, hpointer⟩ := hissued
  obtain ⟨cycle, hissuer⟩ := trbAt_slot hmem hformed hr hj hrecent
  have hlength := hstart.length_le
  rw [pushedTo_of_eq hr] at hlength
  have hbranch := dispatched m d trb
  unfold onTransferEventReceived at h
  generalize dispatch m d trb = result at hbranch h
  have hstart' := hstart.delete (TransferEventTRB.pointer trb)
  have hformed' : RingsFormed { d with
      setupStageMap := d.setupStageMap.delete (TransferEventTRB.pointer trb) } :=
    hformed.congr rfl
  have hcompleted : ∀ {setupStage address : BitVec 64} {len : ℤ},
      d.setupStageMap.get (TransferEventTRB.pointer trb) = some setupStage →
      (∀ buf8, bytesAt m address = some buf8 → buf8 1 = descriptor.kConfiguration →
        ConfigurationDescriptorReader.ValidEndpoints buf8 len) →
      onControlCompleted m { d with
        setupStageMap := d.setupStageMap.delete (TransferEventTRB.pointer trb) }
        (SetupStageTRB.setupData (m.trbAt setupStage)) address len = some (err, d') →
      d'.RingsFormed ∧ ControlOnly d d' ∧ (d'.Starting ∨ j = 7 ∧ ∃ w, d'.Prepared w) := by
    intro setupStage address len hget hanswer hcall
    -- the entry that is found is the one of a setup stage, which comes one TRB before
    obtain ⟨k, hk, hkey, hvalue⟩ :=
      hstart.setupStages r hr _ _ (ArrayMap.hasEntry_of_get hget)
    have hjk : j = k + 1 := by
      rw [hpointer, Ring.slotAddress_inj _ (by unfold sizeofTRB; omega)
        (by unfold sizeofTRB; omega)] at hkey
      omega
    obtain ⟨hformed'', hcontrol, hstage⟩ :=
      onControlCompleted_starting hformed' hstart' hanswer hcall
    refine ⟨hformed'', ⟨hcontrol.inputContext, hcontrol.extend, hcontrol.others⟩, ?_⟩
    rcases hstage with hstarting | ⟨hset, hprepared⟩
    · exact .inl hstarting
    · rw [hvalue] at hset
      have hlast := hstart.request_at hformed hmem hr hk (by omega) hset
      exact .inr ⟨by omega, hprepared⟩
  cases hbranch with
  | refused e =>
    rw [← (Prod.mk.inj (Option.some.inj h)).2]
    exact ⟨hformed, controlOnly_of_eq rfl rfl, .inl hstart⟩
  | normal htype =>
    -- the default pipe carries no normal transfers
    rw [hpointer, hissuer, TRB.trbType_stamped] at htype
    exact absurd htype (hformed.control _ (by rw [pushedTo_of_eq hr]; exact List.getElem_mem hj))
  | data hget htype =>
    -- the answer of a data stage is read
    refine hcompleted hget (fun buf8 hbuf8 hconfiguration => ?_) h
    obtain ⟨-, rfl⟩ := bytesAt_eq_some hbuf8
    exact hvalid htype hconfiguration
  | status hget htype =>
    exact hcompleted hget (fun _ hbuf8 => absurd rfl (bytesAt_eq_some hbuf8).1) h
  | other hget =>
    rw [← (Prod.mk.inj (Option.some.inj h)).2]
    exact ⟨hformed', controlOnly_of_eq rfl rfl, .inl hstart'⟩

end Device

end TommyOS.Usb
