import TommyOS.Usb.Xhci

/-!
# What the handlers do

For each function of the driver, all that it can do when it has a result.
-/

namespace TommyOS.Usb

namespace Controller

variable {m : Machine} {c c' : Controller} {port slotId : BitVec 8} {err : Error}

/-- A command goes to the command ring and changes nothing else. -/
theorem pushCommand_cases {cmd : TRB} (h : c.pushCommand cmd = some c') :
    ∃ p cr, c.commandRing.push cmd = some (p, cr) ∧ c' = { c with commandRing := cr } := by
  unfold pushCommand at h
  simp only [Option.bind_eq_bind, Option.bind_eq_some_iff, Option.some.injEq] at h
  obtain ⟨⟨p, cr⟩, hpush, hc⟩ := h
  exact ⟨p, cr, hpush, hc.symm⟩

/-- What `AllocDevice` does: no such slot, a slot with a device, or a new device. -/
theorem allocDevice_cases (h : c.allocDevice m slotId = some (err, c')) :
    (kDeviceSize < slotId ∧ c' = c) ∨
    (slotId ≤ kDeviceSize ∧ (∃ d, c.devices slotId = some d) ∧ c' = c) ∨
    (slotId ≤ kDeviceSize ∧ c.devices slotId = none ∧
      ∃ addresses, m.newDevice = some addresses ∧
        c' = c.setDevice slotId (.new slotId addresses)) := by
  unfold allocDevice at h
  by_cases hslot : kDeviceSize < slotId
  · rw [if_pos hslot, Option.some.injEq, Prod.mk.injEq] at h
    exact .inl ⟨hslot, h.2.symm⟩
  · rw [if_neg hslot] at h
    have hle := BitVec.not_lt.mp hslot
    cases hdevice : c.devices slotId with
    | some d =>
      rw [hdevice, if_pos Option.isSome_some, Option.some.injEq, Prod.mk.injEq] at h
      exact .inr (.inl ⟨hle, ⟨d, rfl⟩, h.2.symm⟩)
    | none =>
      rw [hdevice, if_neg (by simp)] at h
      simp only [Option.bind_eq_bind, Option.bind_eq_some_iff, Option.some.injEq,
        Prod.mk.injEq] at h
      obtain ⟨addresses, hnew, -, hc⟩ := h
      exact .inr (.inr ⟨hle, rfl, addresses, hnew, hc.symm⟩)

theorem findBySlot_eq_some {d : Device} :
    c.findBySlot slotId = some d ↔ slotId ≤ kDeviceSize ∧ c.devices slotId = some d := by
  unfold findBySlot
  by_cases hslot : kDeviceSize < slotId
  · rw [if_pos hslot]
    exact ⟨fun h => absurd h (by simp), fun h => absurd hslot (BitVec.not_lt.mpr h.1)⟩
  · rw [if_neg hslot]
    exact ⟨fun h => ⟨BitVec.not_lt.mp hslot, h⟩, fun h => h.2⟩

theorem findBySlot_congr (h : c'.devices = c.devices) :
    c'.findBySlot slotId = c.findBySlot slotId := by
  unfold findBySlot
  rw [h]

/-- The device of a slot before and after `AllocDevice`. -/
def DeviceFor (m : Machine) (c : Controller) (slotId : BitVec 8) (d : Device) : Prop :=
  c.devices slotId = some d ∨
    c.devices slotId = none ∧ ∃ addresses, m.newDevice = some addresses ∧ d = .new slotId addresses

/-- What `AddressDevice` does: nothing without a slot, else the device of the slot has an input
context and the command is pushed. -/
theorem addressDevice_cases (h : c.addressDevice m port slotId = some (err, c')) :
    (kDeviceSize < slotId ∧ c' = c) ∨
    ∃ d base ctx p cr, slotId ≤ kDeviceSize ∧ DeviceFor m c slotId d ∧ m.newRing 0 = some base ∧
      addressInputContext m d.inputContext port (.initializeWith base 32) = some ctx ∧
      c.commandRing.push (AddressDeviceCommandTRB.make d.inputContextAddress slotId) =
        some (p, cr) ∧
      c' =
        { c with
          commandRing := cr
          devices := Function.update c.devices slotId
            (some { d.setTransferRing ep0Dci (some (.initializeWith base 32)) with
              inputContext := ctx })
          deviceContextPointers :=
            Function.update c.deviceContextPointers slotId (some (.device slotId))
          portConfigPhase := Function.update c.portConfigPhase port .kAddressingDevice } := by
  unfold addressDevice at h
  simp only [Option.bind_eq_bind, Option.bind_eq_some_iff] at h
  obtain ⟨⟨err₀, c₀⟩, halloc, h⟩ := h
  -- whatever `AllocDevice` answers, the device of the slot is the one found
  have hfound : (kDeviceSize < slotId ∧ c₀ = c) ∨ slotId ≤ kDeviceSize ∧
      ∃ d, DeviceFor m c slotId d ∧ c₀.devices slotId = some d ∧
        ∀ d' : Device, c₀.setDevice slotId d' = c.setDevice slotId d' := by
    rcases allocDevice_cases halloc with ⟨hslot, rfl⟩ | ⟨hslot, ⟨d, hd⟩, rfl⟩ |
      ⟨hslot, hd, addresses, hnew, rfl⟩
    · exact .inl ⟨hslot, rfl⟩
    · exact .inr ⟨hslot, d, .inl hd, hd, fun _ => rfl⟩
    · refine .inr ⟨hslot, .new slotId addresses, .inr ⟨hd, addresses, hnew, rfl⟩, ?_, fun d' => ?_⟩
      · exact Function.update_self _ _ _
      · unfold setDevice
        simp only [Function.update_idem]
  rcases hfound with ⟨hslot, rfl⟩ | ⟨hslot, d, hfor, hd, hset⟩
  · left
    unfold findBySlot at h
    simp only [if_pos hslot, Option.some.injEq, Prod.mk.injEq] at h
    exact ⟨hslot, h.2.symm⟩
  · right
    simp only [findBySlot_eq_some.mpr ⟨hslot, hd⟩] at h
    unfold Device.allocTransferRing at h
    rw [if_pos (by decide)] at h
    simp only [Option.bind_some, Option.bind_eq_some_iff, Option.map_eq_some_iff] at h
    obtain ⟨tr, ⟨base, hbase, rfl⟩, ctx, hctx, ⟨err₁, c₁⟩, hload, h⟩ := h
    unfold loadDCBAA at hload
    simp only [hbase, Option.map_some] at hload h
    rw [hset, if_neg (BitVec.not_lt.mpr hslot)] at hload
    simp only [setDevice, Function.update_self, Option.bind_eq_bind, Option.bind_some,
      Option.some.injEq, Prod.mk.injEq] at hload
    obtain ⟨-, rfl⟩ := hload
    obtain ⟨c₂, hpush, h⟩ := h
    obtain ⟨p, cr, hring, rfl⟩ := pushCommand_cases hpush
    obtain ⟨-, rfl⟩ := Prod.mk.injEq .. ▸ Option.some.inj h
    exact ⟨d, base, ctx, p, cr, hslot, hfor, hbase, hctx, hring, rfl⟩

/-- What `InitializeDevice` does: it changes only the device of the slot and the phase of its
port. -/
theorem initializeDevice_cases (h : c.initializeDevice port slotId = some (err, c')) :
    (c.findBySlot slotId = none ∧ c' = c) ∨
    ∃ d err' d', c.findBySlot slotId = some d ∧ d.startInitialize = some (err', d') ∧
      c' =
        { c with
          devices := Function.update c.devices slotId (some d')
          portConfigPhase := Function.update c.portConfigPhase port .kInitializingDevice } := by
  unfold initializeDevice at h
  cases hd : c.findBySlot slotId with
  | none =>
    simp only [hd, Option.some.injEq, Prod.mk.injEq] at h
    exact .inl ⟨rfl, h.2.symm⟩
  | some d =>
    simp only [hd, Option.bind_eq_bind, Option.bind_eq_some_iff, Option.some.injEq,
      Prod.mk.injEq] at h
    obtain ⟨⟨err', d'⟩, hstart, -, hc⟩ := h
    exact .inr ⟨d, err', d', rfl, hstart, hc.symm⟩

/-- The same for `CompleteConfiguration`. -/
theorem completeConfiguration_cases
    (h : c.completeConfiguration port slotId = some (err, c')) :
    (c.findBySlot slotId = none ∧ c' = c) ∨
    ∃ d err' d', c.findBySlot slotId = some d ∧ d.onEndpointsConfigured = some (err', d') ∧
      c' =
        { c with
          devices := Function.update c.devices slotId (some d')
          portConfigPhase := Function.update c.portConfigPhase port .kConfigured } := by
  unfold completeConfiguration at h
  cases hd : c.findBySlot slotId with
  | none =>
    simp only [hd, Option.some.injEq, Prod.mk.injEq] at h
    exact .inl ⟨rfl, h.2.symm⟩
  | some d =>
    simp only [hd, Option.bind_eq_bind, Option.bind_eq_some_iff, Option.some.injEq,
      Prod.mk.injEq] at h
    obtain ⟨⟨err', d'⟩, hend, -, hc⟩ := h
    exact .inr ⟨d, err', d', rfl, hend, hc.symm⟩

/-- The input context that `ConfigureEndpoints` starts from. -/
def configureInputContext (m : Machine) (slotId : BitVec 8) (ctx : InputContext) : InputContext :=
  { { ctx with addContextFlags := 0#32, slotContext := m.slotContext slotId }.enableSlotContext with
    slotContext := { m.slotContext slotId with contextEntries := 31#5 } }

/-- What `ConfigureEndpoints` does: it stops at the speed of the port or pushes the command. -/
theorem configureEndpoints_cases {d : Device}
    (h : c.configureEndpoints m slotId d = some (err, c')) :
    (c' = c.setDevice slotId
      { d with inputContext := configureInputContext m slotId d.inputContext }) ∨
    ∃ speed d' p cr,
      configureEndpointContexts m speed
        { d with inputContext := configureInputContext m slotId d.inputContext }
        d.numEpConfigs = some d' ∧
      c.commandRing.push (ConfigureEndpointCommandTRB.make d'.inputContextAddress d'.slotId) =
        some (p, cr) ∧
      c' =
        { c with
          commandRing := cr
          devices := Function.update c.devices slotId (some d')
          portConfigPhase := Function.update c.portConfigPhase
            (m.slotContext slotId).rootHubPortNum .kConfiguringEndpoints } := by
  unfold configureEndpoints at h
  simp only [Option.bind_eq_bind] at h
  -- an unknown speed of the port ends the call early
  split at h
  · obtain ⟨-, rfl⟩ := Prod.mk.injEq .. ▸ Option.some.inj h
    exact .inl rfl
  · simp only [Option.bind_eq_some_iff] at h
    obtain ⟨d', hd', c₁, hpush, h⟩ := h
    obtain ⟨p, cr, hring, rfl⟩ := pushCommand_cases hpush
    obtain ⟨-, rfl⟩ := Prod.mk.injEq .. ▸ Option.some.inj h
    exact .inr ⟨_, d', p, cr, hd', hring, rfl⟩

/-- What `ResetPort` does, a case for each of its branches. -/
theorem resetPort_cases (m : Machine) (c : Controller) (port : BitVec 8) :
    (m.isConnected port = false ∧ c.resetPort m port = (.kSuccess, c)) ∨
    (m.isConnected port = true ∧ c.addressingPort ≠ 0#8 ∧
      c.resetPort m port = (.kSuccess, c.setPhase port .kWaitingAddressed)) ∨
    (m.isConnected port = true ∧ c.addressingPort = 0#8 ∧
      c.portConfigPhase port ≠ .kNotConnected ∧ c.portConfigPhase port ≠ .kWaitingAddressed ∧
      c.resetPort m port = (.kInvalidPhase, c)) ∨
    (m.isConnected port = true ∧ c.addressingPort = 0#8 ∧
      (c.portConfigPhase port = .kNotConnected ∨ c.portConfigPhase port = .kWaitingAddressed) ∧
      c.resetPort m port =
        (.kSuccess, { c with addressingPort := port }.setPhase port .kResettingPort)) := by
  unfold resetPort
  cases hconnected : m.isConnected port with
  | false => exact .inl ⟨rfl, by simp⟩
  | true =>
    -- one port is addressed at a time
    by_cases haddressing : c.addressingPort = 0#8
    · by_cases hphase : c.portConfigPhase port ≠ .kNotConnected ∧
          c.portConfigPhase port ≠ .kWaitingAddressed
      · exact .inr (.inr (.inl ⟨rfl, haddressing, hphase.1, hphase.2, by
          simp [haddressing, hphase]⟩))
      · refine .inr (.inr (.inr ⟨rfl, haddressing, ?_, ?_⟩))
        · rcases Decidable.not_and_iff_or_not.mp hphase with hn | hw
          · exact .inl (Decidable.not_not.mp hn)
          · exact .inr (Decidable.not_not.mp hw)
        · rw [if_neg (by simp), if_neg (not_not_intro haddressing), if_neg hphase]
    · exact .inr (.inl ⟨rfl, haddressing, by simp [haddressing]⟩)

/-- What `EnableSlot` does: nothing, or the command. -/
theorem enableSlot_cases (h : c.enableSlot m port = some (err, c')) :
    c' = c ∨ ∃ p cr, c.commandRing.push EnableSlotCommandTRB.make = some (p, cr) ∧
      c' =
        { c with
          commandRing := cr
          portConfigPhase := Function.update c.portConfigPhase port .kEnablingSlot } := by
  unfold enableSlot at h
  split at h
  · simp only [Option.bind_eq_bind, Option.bind_eq_some_iff] at h
    obtain ⟨c₁, hpush, h⟩ := h
    obtain ⟨p, cr, hring, rfl⟩ := pushCommand_cases hpush
    obtain ⟨-, rfl⟩ := Prod.mk.injEq .. ▸ Option.some.inj h
    exact .inr ⟨p, cr, hring, rfl⟩
  · obtain ⟨-, rfl⟩ := Prod.mk.injEq .. ▸ Option.some.inj h
    exact .inl rfl

/-- A reset changes no device. -/
theorem resetPort_devices (m : Machine) (c : Controller) (port : BitVec 8) :
    (c.resetPort m port).2.devices = c.devices := by
  rcases resetPort_cases m c port with ⟨-, heq⟩ | ⟨-, -, heq⟩ | ⟨-, -, -, -, heq⟩ |
    ⟨-, -, -, heq⟩
  all_goals exact congrArg (fun r => r.2.devices) heq

theorem configurePort_devices (m : Machine) (c : Controller) (port : BitVec 8) :
    (c.configurePort m port).2.devices = c.devices := by
  unfold configurePort
  split
  · exact resetPort_devices m c port
  · rfl

theorem onPortStatusChange_devices {trb : TRB}
    (h : c.onPortStatusChange m trb = some (err, c')) :
    c'.devices = c.devices := by
  unfold onPortStatusChange at h
  simp only at h
  split at h
  · rw [← (Prod.mk.inj (Option.some.inj h)).2]
    exact resetPort_devices m c _
  · rcases enableSlot_cases h with rfl | ⟨_, _, -, rfl⟩
    · rfl
    · rfl
  · rw [← (Prod.mk.inj (Option.some.inj h)).2]

/-- What the handler of a transfer event does: the device takes the event, and its endpoints are
configured at the end of its initialization. -/
theorem onTransfer_cases {trb : TRB} (h : c.onTransfer m trb = some (err, c')) :
    (c.findBySlot (TransferEventTRB.slotId trb) = none ∧ c' = c) ∨
    ∃ d err' d', c.findBySlot (TransferEventTRB.slotId trb) = some d ∧
      d.onTransferEventReceived m trb = some (err', d') ∧
      (c' = c.setDevice (TransferEventTRB.slotId trb) d' ∨
        d'.isInitialized = true ∧
        c.portConfigPhase (m.slotContext (TransferEventTRB.slotId trb)).rootHubPortNum =
          .kInitializingDevice ∧
        (c.setDevice (TransferEventTRB.slotId trb) d').configureEndpoints m
          (TransferEventTRB.slotId trb) d' = some (err, c')) := by
  unfold onTransfer at h
  cases hd : c.findBySlot (TransferEventTRB.slotId trb) with
  | none =>
    simp only [hd, Option.some.injEq, Prod.mk.injEq] at h
    exact .inl ⟨rfl, h.2.symm⟩
  | some d =>
    simp only [hd, Option.bind_eq_bind, Option.bind_eq_some_iff] at h
    obtain ⟨⟨err', d'⟩, hreceived, h⟩ := h
    refine .inr ⟨d, err', d', rfl, hreceived, ?_⟩
    simp only at h
    -- a failed handler, a device that is ready, or one that goes on
    split at h
    · obtain ⟨-, rfl⟩ := Prod.mk.injEq .. ▸ Option.some.inj h
      exact .inl rfl
    · split at h
      · next hinit => exact .inr ⟨hinit.1, hinit.2, h⟩
      · obtain ⟨-, rfl⟩ := Prod.mk.injEq .. ▸ Option.some.inj h
        exact .inl rfl

/-- The port that was found is waiting. -/
theorem firstWaiting_eq_some (h : c.firstWaiting = some port) :
    c.portConfigPhase port = .kWaitingAddressed := by
  unfold firstWaiting at h
  have hfound := List.find?_some (p := fun p => decide (c.portConfigPhase p = .kWaitingAddressed)) h
  exact of_decide_eq_true hfound

/-- A device that has its address hands over to the first port that waits, when that is still
connected, and then begins its initialization. -/
theorem onAddressDeviceCompleted_cases
    (h : c.onAddressDeviceCompleted m port slotId = some (err, c')) :
    ((port = c.addressingPort → c.portConfigPhase port ≠ .kAddressingDevice) ∧ c' = c) ∨
    (port = c.addressingPort ∧ c.portConfigPhase port = .kAddressingDevice ∧
      ∃ c₁, ((∀ waiting, c.firstWaiting = some waiting → m.isConnected waiting = false) ∧
          c₁ = { c with addressingPort := 0#8 } ∨
        ∃ waiting, c.firstWaiting = some waiting ∧ m.isConnected waiting = true ∧
          c₁ = { c with addressingPort := waiting }.setPhase waiting .kResettingPort) ∧
        c₁.initializeDevice port slotId = some (err, c')) := by
  unfold onAddressDeviceCompleted at h
  split at h
  · next haddressing =>
    exact .inl ⟨fun heq => absurd heq haddressing, (congrArg Prod.snd (Option.some.inj h)).symm⟩
  · next haddressing =>
    split at h
    · next hphase => exact .inl ⟨fun _ => hphase, (congrArg Prod.snd (Option.some.inj h)).symm⟩
    · next hphase =>
      right
      refine ⟨Decidable.not_not.mp haddressing, Decidable.not_not.mp hphase, ?_⟩
      have hfirst : { c with addressingPort := 0#8 }.firstWaiting = c.firstWaiting := rfl
      have hok : ¬ Error.kSuccess.failed = true := by decide
      simp only [hfirst] at h
      cases hwaiting : c.firstWaiting with
      | none =>
        simp only [hwaiting] at h
        exact ⟨_, .inl ⟨fun _ hsome => absurd hsome (by simp), rfl⟩, h⟩
      | some waiting =>
        simp only [hwaiting] at h
        have hphase' := firstWaiting_eq_some hwaiting
        rcases resetPort_cases m { c with addressingPort := 0#8 } waiting with ⟨hc, heq⟩ |
          ⟨-, hbusy, -⟩ | ⟨-, -, -, hn, -⟩ | ⟨hc, -, -, heq⟩
        · -- unplugged while it waited: the reset does nothing and does not fail
          simp only [heq] at h
          rw [if_neg hok] at h
          exact ⟨_, .inl ⟨fun w hw => Option.some.inj hw ▸ hc, rfl⟩, h⟩
        · exact absurd rfl hbusy
        · exact absurd hphase' hn
        · simp only [heq] at h
          rw [if_neg hok] at h
          exact ⟨_, .inr ⟨waiting, rfl, hc, rfl⟩, h⟩

/-- What the handler of a command does, by the command that has completed. -/
theorem onCommandCompletion_cases {trb : TRB} (h : c.onCommandCompletion m trb = some (err, c')) :
    c' = c ∨
    ((m.trbAt trb.pointer).trbType = EnableSlotCommandTRB.type ∧
      c.portConfigPhase c.addressingPort = .kEnablingSlot ∧
      c.addressDevice m c.addressingPort (CommandCompletionEventTRB.slotId trb) =
        some (err, c')) ∨
    ((m.trbAt trb.pointer).trbType = AddressDeviceCommandTRB.type ∧
      ∃ d, c.findBySlot (CommandCompletionEventTRB.slotId trb) = some d ∧
        c.onAddressDeviceCompleted m
          (m.slotContext (CommandCompletionEventTRB.slotId trb)).rootHubPortNum
          (CommandCompletionEventTRB.slotId trb) = some (err, c')) ∨
    ((m.trbAt trb.pointer).trbType = ConfigureEndpointCommandTRB.type ∧
      ∃ d, c.findBySlot (CommandCompletionEventTRB.slotId trb) = some d ∧
        c.portConfigPhase (m.slotContext (CommandCompletionEventTRB.slotId trb)).rootHubPortNum =
          .kConfiguringEndpoints ∧
        c.completeConfiguration
          (m.slotContext (CommandCompletionEventTRB.slotId trb)).rootHubPortNum
          (CommandCompletionEventTRB.slotId trb) = some (err, c')) := by
  have hsame : ∀ {e : Error}, some (e, c) = some (err, c') → c' = c :=
    fun heq => (congrArg Prod.snd (Option.some.inj heq)).symm
  unfold onCommandCompletion at h
  simp only at h
  -- the type of the TRB behind the event is the command that has completed
  by_cases henable : (m.trbAt trb.pointer).trbType = EnableSlotCommandTRB.type
  · rw [if_pos henable] at h
    split at h
    · exact .inl (hsame h)
    · next hphase => exact .inr (.inl ⟨henable, Decidable.not_not.mp hphase, h⟩)
  · rw [if_neg henable] at h
    by_cases haddress : (m.trbAt trb.pointer).trbType = AddressDeviceCommandTRB.type
    · rw [if_pos haddress] at h
      split at h
      · exact .inl (hsame h)
      · next d hd => exact .inr (.inr (.inl ⟨haddress, d, hd, h⟩))
    · rw [if_neg haddress] at h
      by_cases hconfigure : (m.trbAt trb.pointer).trbType = ConfigureEndpointCommandTRB.type
      · rw [if_pos hconfigure] at h
        split at h
        · exact .inl (hsame h)
        · next d hd =>
          split at h
          · exact .inl (hsame h)
          · next hphase =>
            exact .inr (.inr (.inr ⟨hconfigure, d, hd, Decidable.not_not.mp hphase, h⟩))
      · rw [if_neg hconfigure] at h
        exact .inl (hsame h)

end Controller

end TommyOS.Usb
