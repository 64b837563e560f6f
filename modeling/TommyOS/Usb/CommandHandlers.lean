import TommyOS.Usb.DriverSteps

/-!
# The handlers of commands

What is done about the ports and the command ring: the reset of a port, the slot and the address
of its device, and the end of its configuration.
-/

namespace TommyOS.Usb

open Controller

/-! ## The ports -/

section Ports

variable {s : UsbState} {c : Controller} {events : List PostedEvent} {m : Machine}
  {port slotId : BitVec 8} {d : Device} {err : Error}

/-- The port of a device is not one that has none yet. -/
theorem UsbInvariant.port_ne (hinv : UsbInvariant s) (hd : s.driver.devices slotId = some d)
    (hphase : ∀ d : Device, ¬ d.StageAt (s.driver.portConfigPhase port)) : d.port ≠ port := by
  intro heq
  exact hphase d (heq ▸ (hinv.device slotId d hd).stage)

theorem slotStep_of_eq (hdevice : c.devices slotId = s.driver.devices slotId)
    (hphase : ∀ d, s.driver.devices slotId = some d →
      c.portConfigPhase d.port = s.driver.portConfigPhase d.port) :
    SlotStep s c events slotId := by
  cases hd : s.driver.devices slotId with
  | none => exact .unused hd (hdevice.trans hd)
  | some d => exact .same d hd (hdevice.trans hd) (hphase d hd)

theorem commandWeight_of_eq (hdevice : c.devices slotId = s.driver.devices slotId)
    (hphase : ∀ d, s.driver.devices slotId = some d →
      c.portConfigPhase d.port = s.driver.portConfigPhase d.port) :
    s.driver.commandWeight slotId = c.commandWeight slotId := by
  cases hd : s.driver.devices slotId with
  | none => rw [commandWeight_of_none hd, commandWeight_of_none (hdevice.trans hd)]
  | some d =>
    rw [commandWeight_of_some hd, commandWeight_of_some (hdevice.trans hd), hphase d hd]

/-- A step with at most one new command, for which the phases now have room. -/
theorem driverStep_of_commands (hinv : UsbInvariant s) (hmax : c.maxPorts = s.driver.maxPorts)
    (hslots : ∀ slotId, SlotStep s c events slotId) (k : ℕ)
    (hsum : ∑ n ∈ Finset.Icc 1 8, s.driver.commandWeight (BitVec.ofNat 8 n) + k ≤
      ∑ n ∈ Finset.Icc 1 8, c.commandWeight (BitVec.ofNat 8 n))
    (hcommand : c.commandRing = s.driver.commandRing ∧ s.driver.enabling ≤ c.enabling + k ∨
      ∃ cmd p, s.driver.commandRing.push cmd = some (p, c.commandRing) ∧
        s.driver.enabling + 1 ≤ c.enabling + k) :
    DriverStep s c events := by
  have hcommands := hinv.commands
  unfold commandBudget at hcommands
  refine ⟨hslots, hmax, ?_, ?_⟩
  · rcases hcommand with ⟨hsame, -⟩ | ⟨cmd, p, hpush, -⟩
    · exact .inl hsame
    · exact .inr ⟨cmd, p, hpush⟩
  · unfold commandBudget
    rcases hcommand with ⟨hsame, hle⟩ | ⟨cmd, p, hpush, hle⟩
    · rw [hsame]
      omega
    · rw [LoggedRing.push_pushed hpush, List.length_append, List.length_singleton]
      omega

/-- A step of ports that have no device. -/
theorem driverStep_of_ports (hinv : UsbInvariant s) (hdevices : c.devices = s.driver.devices)
    (hmax : c.maxPorts = s.driver.maxPorts)
    (hphase : ∀ slotId d, s.driver.devices slotId = some d →
      c.portConfigPhase d.port = s.driver.portConfigPhase d.port)
    (hcommand : c.commandRing = s.driver.commandRing ∧ s.driver.enabling ≤ c.enabling ∨
      ∃ cmd p, s.driver.commandRing.push cmd = some (p, c.commandRing) ∧
        s.driver.enabling + 1 ≤ c.enabling) :
    DriverStep s c events := by
  have hsum := sum_commandWeight_mono fun slotId =>
    Nat.le_of_eq (commandWeight_of_eq (congrFun hdevices slotId) (hphase slotId))
  exact driverStep_of_commands hinv hmax
    (fun slotId => slotStep_of_eq (congrFun hdevices slotId) (hphase slotId)) 0 hsum hcommand

theorem driverStep_refl (hinv : UsbInvariant s) : DriverStep s s.driver events :=
  driverStep_of_ports hinv rfl rfl (fun _ _ _ => rfl) (.inl ⟨rfl, Nat.le_refl _⟩)

theorem enabling_eq_zero (h : c.portConfigPhase c.addressingPort ≠ .kEnablingSlot) :
    c.enabling = 0 := if_neg h

theorem enabling_eq_one (h : c.portConfigPhase c.addressingPort = .kEnablingSlot) :
    c.enabling = 1 := if_pos h

/-- The command that enables a slot is not about another port. -/
theorem enabling_le_of_update {phase : ConfigPhase}
    (haddressing : c.addressingPort = s.driver.addressingPort)
    (hphases : c.portConfigPhase = Function.update s.driver.portConfigPhase port phase)
    (hphase : s.driver.portConfigPhase port ≠ .kEnablingSlot) :
    s.driver.enabling ≤ c.enabling := by
  by_cases henabling : s.driver.portConfigPhase s.driver.addressingPort = .kEnablingSlot
  · have hne : s.driver.addressingPort ≠ port := fun heq => hphase (heq ▸ henabling)
    refine Nat.le_of_eq ((enabling_eq_one henabling).trans (enabling_eq_one ?_).symm)
    rw [haddressing, hphases, Function.update_of_ne hne, henabling]
  · rw [enabling_eq_zero henabling]
    exact Nat.zero_le _

theorem resetPort_driverStep (hinv : UsbInvariant s)
    (hphase : s.driver.portConfigPhase port = .kNotConnected) :
    DriverStep s (s.driver.resetPort m port).2 events := by
  have hports : ∀ phase slotId d, s.driver.devices slotId = some d →
      Function.update s.driver.portConfigPhase port phase d.port =
        s.driver.portConfigPhase d.port := by
    intro phase slotId d hd
    refine Function.update_of_ne (hinv.port_ne hd fun d hstage => ?_) _ _
    rw [hphase] at hstage
    exact hstage
  rcases resetPort_cases m s.driver port with ⟨-, heq⟩ | ⟨-, -, heq⟩ | ⟨-, -, hn, -⟩ |
    ⟨-, hidle, -, heq⟩
  · rw [heq]
    exact driverStep_refl hinv
  · rw [heq]
    exact driverStep_of_ports hinv rfl rfl (hports _) (.inl ⟨rfl, enabling_le_of_update rfl rfl
      (by rw [hphase]; decide)⟩)
  · exact absurd hphase hn
  · rw [heq]
    refine driverStep_of_ports hinv rfl rfl (hports _) (.inl ⟨rfl, ?_⟩)
    have hzero : s.driver.portConfigPhase 0#8 = .kNotConnected := hinv.ports.zero
    rw [enabling_eq_zero (by rw [hidle, hzero]; decide)]
    exact Nat.zero_le _

theorem enableSlot_driverStep (hinv : UsbInvariant s)
    (hphase : s.driver.portConfigPhase port = .kResettingPort)
    (h : s.driver.enableSlot m port = some (err, c)) : DriverStep s c events := by
  rcases enableSlot_cases h with rfl | ⟨p, cr, hpush, rfl⟩
  · exact driverStep_refl hinv
  · have haddressing : port = s.driver.addressingPort :=
      ((hinv.ports.addressing port).mp (by
        show (s.driver.portConfigPhase port).addressing = true
        rw [hphase]
        rfl)).1
    refine driverStep_of_ports hinv rfl rfl (fun slotId d hd => ?_) (.inr ⟨_, p, hpush, ?_⟩)
    · refine Function.update_of_ne (hinv.port_ne hd fun d hstage => ?_) _ _
      rw [hphase] at hstage
      exact hstage
    · rw [enabling_eq_zero (by rw [← haddressing, hphase]; decide), enabling_eq_one ?_]
      rw [← haddressing]
      exact Function.update_self _ _ _

end Ports

/-! ## The devices -/

section Devices

variable {s : UsbState} {c : Controller} {events : List PostedEvent} {m : Machine}
  {port slotId : BitVec 8} {d d' : Device} {err : Error}

theorem rootHubPortNum_addressInputContext {ctx ctx' : InputContext} {tr : LoggedRing}
    (h : addressInputContext m ctx port tr = some ctx') :
    ctx'.slotContext.rootHubPortNum = port := by
  unfold addressInputContext at h
  simp only [Option.bind_eq_bind, Option.bind_eq_some_iff, Option.some.injEq] at h
  obtain ⟨ctx₁, -, rfl⟩ := h
  rfl

/-- A new device with its default pipe and its input context. -/
def newAddressed (slotId : BitVec 8) (addresses : DeviceAddresses) (base : BitVec 64)
    (ctx : InputContext) : Device :=
  { (Device.new slotId addresses).setTransferRing ep0Dci (some (.initializeWith base 32)) with
    inputContext := ctx }

section NewAddressed

variable {addresses : DeviceAddresses} {base : BitVec 64} {ctx : InputContext}

theorem transferRings_newAddressed (i : ℕ) :
    (newAddressed slotId addresses base ctx).transferRings i =
      if i = 0 then some (.initializeWith base 32) else none :=
  Function.update_apply _ _ _ _

theorem pushedTo_newAddressed (i : ℕ) :
    (newAddressed slotId addresses base ctx).pushedTo i = [] := by
  unfold Device.pushedTo
  rw [transferRings_newAddressed]
  by_cases hi : i = 0
  · rw [if_pos hi]
    rfl
  · rw [if_neg hi]

theorem blank_newAddressed (hbuf : addresses.buf ≠ 0#64) :
    (newAddressed slotId addresses base ctx).Blank where
  isInitialized := rfl
  drivers := rfl
  classDrivers := rfl
  bufAddress := hbuf
  setupStages := fun _ _ => ArrayMap.not_hasEntry_empty 16
  pushed := pushedTo_newAddressed

theorem ringsFormed_newAddressed : (newAddressed slotId addresses base ctx).RingsFormed where
  wellFormed := by
    intro i r hr
    rw [transferRings_newAddressed] at hr
    split at hr
    · rw [← Option.some.inj hr]
      exact LoggedRing.wellFormed_initializeWith base
    · exact absurd hr (by simp)
  defaultPipe := ⟨_, (transferRings_newAddressed 0).trans (if_pos rfl)⟩
  control := by
    rw [pushedTo_newAddressed]
    exact fun _ htrb => absurd htrb List.not_mem_nil

end NewAddressed

/-- A step of one device, with some new commands for it. -/
theorem driverStep_of_slot (hinv : UsbInvariant s) (hmax : c.maxPorts = s.driver.maxPorts)
    (hdevices : ∀ slotId', slotId' ≠ slotId → c.devices slotId' = s.driver.devices slotId')
    (hphases : ∀ slotId' d', slotId' ≠ slotId → s.driver.devices slotId' = some d' →
      c.portConfigPhase d'.port = s.driver.portConfigPhase d'.port)
    (hslot : SlotStep s c events slotId) (hassigned : slotId ∈ s.assigned) (k : ℕ)
    (hweight : s.driver.commandWeight slotId + k ≤ c.commandWeight slotId)
    (hcommand : c.commandRing = s.driver.commandRing ∧ s.driver.enabling ≤ c.enabling + k ∨
      ∃ cmd p, s.driver.commandRing.push cmd = some (p, c.commandRing) ∧
        s.driver.enabling + 1 ≤ c.enabling + k) :
    DriverStep s c events := by
  have hothers : ∀ slotId', s.driver.commandWeight slotId' ≤ c.commandWeight slotId' := by
    intro slotId'
    by_cases hsame : slotId' = slotId
    · rw [hsame]
      omega
    · exact Nat.le_of_eq (commandWeight_of_eq (hdevices slotId' hsame) fun d' hd' =>
        hphases slotId' d' hsame hd')
  obtain ⟨hlow, hhigh⟩ := hinv.assigned slotId hassigned
  refine driverStep_of_commands hinv hmax (fun slotId' => ?_) k
    (sum_commandWeight_add hlow hhigh hothers hweight) hcommand
  by_cases hsame : slotId' = slotId
  · rw [hsame]
    exact hslot
  · exact slotStep_of_eq (hdevices slotId' hsame) fun d' hd' => hphases slotId' d' hsame hd'

theorem addressDevice_driverStep (hinv : UsbInvariant s)
    (hbuf : ∀ addresses, m.newDevice = some addresses → addresses.buf ≠ 0#64)
    (hphase : s.driver.portConfigPhase s.driver.addressingPort = .kEnablingSlot)
    (hnone : s.driver.devices slotId = none) (hassigned : slotId ∈ s.assigned)
    (hnew : ∀ e ∈ events, e.newSlot ≠ some slotId)
    (h : s.driver.addressDevice m s.driver.addressingPort slotId = some (err, c)) :
    DriverStep s c events := by
  rcases addressDevice_cases h with ⟨-, rfl⟩ | ⟨d, base, ctx, p, cr, -, hfor, -, hctx, hpush, hc⟩
  · exact driverStep_refl hinv
  · obtain ⟨addresses, hadd, rfl⟩ : ∃ addresses, m.newDevice = some addresses ∧
        d = .new slotId addresses := by
      rcases hfor with hsome | ⟨-, hnew⟩
      · exact absurd (hsome.symm.trans hnone) (by simp)
      · exact hnew
    have hport : (newAddressed slotId addresses base ctx).port = s.driver.addressingPort :=
      rootHubPortNum_addressInputContext hctx
    have hdevices : c.devices = Function.update s.driver.devices slotId
        (some (newAddressed slotId addresses base ctx)) := by
      rw [hc]
      rfl
    have hphases : c.portConfigPhase = Function.update s.driver.portConfigPhase
        s.driver.addressingPort .kAddressingDevice := by rw [hc]
    have hd' : c.devices slotId = some (newAddressed slotId addresses base ctx) := by
      rw [hdevices, Function.update_self]
    have hphase' : c.portConfigPhase s.driver.addressingPort = .kAddressingDevice := by
      rw [hphases, Function.update_self]
    -- the ports of the other devices are further on
    have hports : ∀ slotId' d', s.driver.devices slotId' = some d' →
        d'.port ≠ s.driver.addressingPort := by
      intro slotId' d' hd'
      refine hinv.port_ne hd' fun d hstage => ?_
      rw [hphase] at hstage
      exact hstage
    have hothers : ∀ slotId', slotId' ≠ slotId →
        c.devices slotId' = s.driver.devices slotId' := by
      intro slotId' hne
      rw [hdevices, Function.update_of_ne hne]
    refine driverStep_of_slot hinv (by rw [hc]) hothers ?_ ?_ hassigned 2 ?_ ?_
    · intro slotId' d' _ hd'
      rw [hphases, Function.update_of_ne (hports slotId' d' hd')]
    · refine .added _ hnone hd' hassigned hnew ?_ pushedTo_newAddressed hothers ?_
      · refine ⟨ringsFormed_newAddressed, ?_, fun hinit => absurd hinit Bool.false_ne_true, ?_⟩
        · show Device.StageAt (c.portConfigPhase _) _
          rw [hport, hphase']
          exact blank_newAddressed (hbuf addresses hadd)
        · intro i _ j _
          rw [pushedTo_newAddressed]
          exact Nat.zero_le _
      · rw [hport]
        exact hports
    · rw [commandWeight_of_none hnone, commandWeight_of_some hd', hport, hphase']
      decide
    · refine .inr ⟨_, p, by rw [hc]; exact hpush, ?_⟩
      rw [enabling_eq_one hphase]
      exact Nat.le_add_left _ _

/-- The device of a port that a handler is called for. -/
theorem UsbInvariant.device_of_rootHubPort (hinv : UsbInvariant s) {trb : TRB}
    (henv : Environment m s.driver trb) (hd : s.driver.devices slotId = some d)
    (hphase : s.driver.portConfigPhase (m.slotContext slotId).rootHubPortNum ≠ .kNotConnected) :
    (m.slotContext slotId).rootHubPortNum = d.port := by
  rcases henv.rootHubPort slotId d hd with hzero | hport
  · rw [hzero] at hphase
    exact absurd hinv.ports.zero hphase
  · exact hport

theorem Device.ControlOnly.port_eq (h : Device.ControlOnly d d') : d'.port = d.port :=
  congrArg (·.slotContext.rootHubPortNum) h.inputContext

theorem safe_of_controlOnly (h : Device.ControlOnly d d')
    (hlive : ∀ j, s.Live (.transfer slotId 0) j → (d'.pushedTo 0).length ≤ j + 30) (i k : ℕ)
    (hold : (d.pushedTo i).length ≤ k) (hnew : k < (d'.pushedTo i).length) :
    s.Safe (.transfer slotId i) k := by
  intro j hj
  by_cases hi : i = 0
  · subst hi
    exact Nat.lt_of_lt_of_le hnew (hlive j hj)
  · rw [h.others i hi] at hnew
    exact absurd hnew (Nat.not_lt.mpr hold)

/-- A device without other endpoints that gets at most some TRBs on its default pipe. -/
theorem slotStep_of_controlOnly (hd : s.driver.devices slotId = some d)
    (hd' : c.devices slotId = some d') (hcontrol : Device.ControlOnly d d')
    (hquiet : ∀ i, i ≠ 0 → d.pushedTo i = []) (hformed : d'.RingsFormed)
    (hstage : d'.StageAt (c.portConfigPhase d'.port))
    (hdone : d'.isInitialized = true →
      ∀ j, (s.after c events).Live (.transfer slotId 0) j → 8 ≤ j)
    (hlive : ∀ j, s.Live (.transfer slotId 0) j → (d'.pushedTo 0).length ≤ j + 30) :
    SlotStep s c events slotId := by
  refine .changed d d' hd hd' hcontrol.port_eq hcontrol.extend
    ⟨hformed, hstage, hdone, fun i hi j _ => ?_⟩ (safe_of_controlOnly hcontrol hlive)
  rw [hcontrol.others i hi, hquiet i hi]
  exact Nat.zero_le _

/-- Another device has another port. -/
theorem UsbInvariant.other_port (hinv : UsbInvariant s) (hd : s.driver.devices slotId = some d)
    {slotId' : BitVec 8} (hne : slotId' ≠ slotId) (hd' : s.driver.devices slotId' = some d') :
    d'.port ≠ d.port := fun hport => hne (hinv.distinct _ _ _ _ hd' hd hport)

theorem UsbInvariant.findBySlot (hinv : UsbInvariant s) (hd : s.driver.devices slotId = some d)
    (hsame : c.devices = s.driver.devices) : c.findBySlot slotId = some d :=
  findBySlot_eq_some.mpr ⟨(hinv.assigned slotId (hinv.used slotId d hd)).2, by rw [hsame, hd]⟩

/-- The device has its address. -/
theorem onAddressDeviceCompleted_driverStep (hinv : UsbInvariant s)
    (hd : s.driver.devices slotId = some d)
    (hport : s.driver.portConfigPhase port = .kAddressingDevice → port = d.port)
    (h : s.driver.onAddressDeviceCompleted m port slotId = some (err, c)) :
    DriverStep s c events := by
  rcases onAddressDeviceCompleted_cases h with ⟨-, rfl⟩ | ⟨haddressing, hphase, c₁, hhand, hinit⟩
  · exact driverStep_refl hinv
  · have hport' := hport hphase
    -- the other devices see nothing of the next port that is addressed
    have hc₁ : c₁.devices = s.driver.devices ∧ c₁.maxPorts = s.driver.maxPorts ∧
        c₁.commandRing = s.driver.commandRing ∧ ∀ slotId' d', s.driver.devices slotId' = some d' →
          c₁.portConfigPhase d'.port = s.driver.portConfigPhase d'.port := by
      rcases hhand with ⟨-, rfl⟩ | ⟨waiting, hfirst, -, rfl⟩
      · exact ⟨rfl, rfl, rfl, fun _ _ _ => rfl⟩
      · refine ⟨rfl, rfl, rfl, fun slotId' d' hd' => ?_⟩
        refine Function.update_of_ne (hinv.port_ne hd' fun d hstage => ?_) _ _
        rw [firstWaiting_eq_some hfirst] at hstage
        exact hstage
    obtain ⟨hdevices₁, hmax, hring, hphases₁⟩ := hc₁
    have hdevice := hinv.device slotId d hd
    have hblank : d.Blank := by
      have hstage := hdevice.stage
      rw [← hport', hphase] at hstage
      exact hstage
    rcases initializeDevice_cases hinit with ⟨hnone, -⟩ | ⟨d₁, err', d', hfind, hstart, hc⟩
    · exact absurd ((hinv.findBySlot hd hdevices₁).symm.trans hnone) (by simp)
    · obtain rfl := Option.some.inj ((hinv.findBySlot hd hdevices₁).symm.trans hfind)
      obtain ⟨hformed, hstarting, hcontrol⟩ :=
        Device.startInitialize_cases hdevice.formed hblank hstart
      have hphases : c.portConfigPhase =
          Function.update c₁.portConfigPhase port .kInitializingDevice := by rw [hc]
      have hphase' : c.portConfigPhase d'.port = .kInitializingDevice := by
        rw [hphases, hcontrol.port_eq, ← hport', Function.update_self]
      have hd' : c.devices slotId = some d' := by
        rw [hc]
        exact Function.update_self _ _ _
      refine driverStep_of_slot hinv (by rw [hc]; exact hmax) ?_ ?_ ?_
        (hinv.used slotId d hd) 0 ?_ ?_
      · intro slotId' hne
        rw [hc, ← hdevices₁]
        exact Function.update_of_ne hne _ _
      · intro slotId' d'' hne hd''
        rw [hphases, hport', Function.update_of_ne (hinv.other_port hd hne hd''),
          hphases₁ slotId' d'' hd'']
      · refine slotStep_of_controlOnly hd hd' hcontrol (fun i _ => hblank.pushed i) hformed ?_ ?_ ?_
        · rw [hphase']
          exact .inl hstarting
        · intro hinit
          rw [hstarting.isInitialized] at hinit
          exact absurd hinit Bool.false_ne_true
        · intro j _
          have hlength := hstarting.length_le
          omega
      · rw [commandWeight_of_some hd, commandWeight_of_some hd', hphase', ← hport', hphase]
        decide
      · refine .inl ⟨by rw [hc]; exact hring, ?_⟩
        rw [enabling_eq_zero (by rw [← haddressing, hphase]; decide)]
        exact Nat.zero_le _

/-- The endpoints of the device are configured. -/
theorem completeConfiguration_driverStep (hinv : UsbInvariant s)
    (hd : s.driver.devices slotId = some d) (hport : port = d.port)
    (hphase : s.driver.portConfigPhase port = .kConfiguringEndpoints)
    (hevents : events <:+ s.events)
    (h : s.driver.completeConfiguration port slotId = some (err, c)) :
    DriverStep s c events := by
  have hdevice := hinv.device slotId d hd
  obtain ⟨w, hprepared⟩ : ∃ w, d.Prepared w := by
    have hstage := hdevice.stage
    rw [← hport, hphase] at hstage
    exact hstage
  rcases completeConfiguration_cases h with ⟨hnone, -⟩ | ⟨d₁, err', d', hfind, hend, hc⟩
  · exact absurd ((hinv.findBySlot hd rfl).symm.trans hnone) (by simp)
  · obtain rfl := Option.some.inj ((hinv.findBySlot hd rfl).symm.trans hfind)
    obtain ⟨hformed, hcontrol, w', hrun⟩ :=
      Device.onEndpointsConfigured_cases hprepared hdevice.formed hend
    have hphases : c.portConfigPhase =
        Function.update s.driver.portConfigPhase port .kConfigured := by rw [hc]
    have hphase' : c.portConfigPhase d'.port = .kConfigured := by
      rw [hphases, hcontrol.port_eq, ← hport, Function.update_self]
    have hd' : c.devices slotId = some d' := by
      rw [hc]
      exact Function.update_self _ _ _
    have hdone := hdevice.control hprepared.isInitialized
    -- only this slot changes, whose port goes to the last phase
    refine driverStep_of_slot hinv (by rw [hc]) ?_ ?_ ?_ (hinv.used slotId d hd) 0 ?_ ?_
    · intro slotId' hne
      rw [hc]
      exact Function.update_of_ne hne _ _
    · intro slotId' d'' hne hd''
      rw [hphases, hport, Function.update_of_ne (hinv.other_port hd hne hd'')]
    · refine slotStep_of_controlOnly hd hd' hcontrol (fun _ hi => hprepared.quiet hi) hformed ?_
        (fun _ j hj => hdone j (live_of_after hevents hj)) ?_
      · rw [hphase']
        exact ⟨w', hrun⟩
      · -- the first eight TRBs are done with
        intro j hj
        have hlow := hdone j hj
        have hlength := hrun.control
        omega
    · rw [commandWeight_of_some hd, commandWeight_of_some hd', hphase', ← hport, hphase]
      decide
    · exact .inl ⟨by rw [hc], enabling_le_of_update (by rw [hc]) hphases (by rw [hphase]; decide)⟩

end Devices

end TommyOS.Usb
