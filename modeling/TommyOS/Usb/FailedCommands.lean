import TommyOS.Usb.PortAddressing

/-!
# Commands that fail

The completion of a command says how the command ended. The handlers of the three commands read
the slot and the command, but not this code: a command that failed is stopped only where its
completion would be turned down for a success as well.
-/

namespace TommyOS.Usb

/-- The phases are numbered in their order. -/
def ConfigPhase.number (phase : ConfigPhase) : ℕ := phase.ctorIdx

/-! ## The command of a completion -/

/-- The type of the command that an event is about. -/
def commandType (m : Machine) (trb : TRB) : BitVec 6 := (m.trbAt trb.pointer).trbType

/-- The completion of one of the three commands, with a code other than success. -/
structure CommandFailed (m : Machine) (trb : TRB) : Prop where
  type : trb.trbType = CommandCompletionEventTRB.type
  issuer : commandType m trb ∈
    [EnableSlotCommandTRB.type, AddressDeviceCommandTRB.type, ConfigureEndpointCommandTRB.type]
  code : CommandCompletionEventTRB.completionCode trb ≠ 1#8

/-- The port that a command is for. -/
def commandPort (m : Machine) (c : Controller) (trb : TRB) : BitVec 8 :=
  if commandType m trb = EnableSlotCommandTRB.type then c.addressingPort
  else (m.slotContext (CommandCompletionEventTRB.slotId trb)).rootHubPortNum

/-- The phase of a port while it waits for a command. -/
def awaitingPhase (type : BitVec 6) : ConfigPhase :=
  if type = EnableSlotCommandTRB.type then .kEnablingSlot
  else if type = AddressDeviceCommandTRB.type then .kAddressingDevice
  else .kConfiguringEndpoints

/-- Enable Slot names a slot of the driver, and the other commands one with a device. -/
def SlotFound (c : Controller) (type : BitVec 6) (slotId : BitVec 8) : Prop :=
  if type = EnableSlotCommandTRB.type then slotId ≤ Controller.kDeviceSize
  else (c.findBySlot slotId).isSome = true

/-- The port waits for the command, and its slot is found. -/
structure CommandAwaited (m : Machine) (c : Controller) (trb : TRB) : Prop where
  phase : c.portConfigPhase (commandPort m c trb) = awaitingPhase (commandType m trb)
  slot : SlotFound c (commandType m trb) (CommandCompletionEventTRB.slotId trb)

/-- The answer to a failed command of a port: an error, by which no port goes on, no device is
created and no command is issued. -/
structure PortStopped (c : Controller) (port : BitVec 8) (err : Error) (c' : Controller) :
    Prop where
  failed : err.failed = true
  others : ∀ q, q ≠ port → c'.portConfigPhase q = c.portConfigPhase q
  phase : c'.portConfigPhase port = c.portConfigPhase port ∨
    (c'.portConfigPhase port).number < (c.portConfigPhase port).number
  devices : ∀ slotId, c.devices slotId = none → c'.devices slotId = none
  commands : c'.commandRing.pushed = c.commandRing.pushed

namespace Controller

variable {m : Machine} {c c' : Controller} {err : Error} {trb : TRB} {port slotId : BitVec 8}

theorem onEvent_of_commandCompletion (htype : trb.trbType = CommandCompletionEventTRB.type) :
    c.onEvent m trb = c.onCommandCompletion m trb := by
  unfold onEvent
  rw [htype, if_neg (by decide), if_neg (by decide), if_pos rfl]

theorem stopped_refl (herr : err.failed = true) : PortStopped c port err c where
  failed := herr
  others := fun _ _ => rfl
  phase := .inl rfl
  devices := fun _ h => h
  commands := rfl

theorem addressDevice_of_lt (hslot : kDeviceSize < slotId) :
    c.addressDevice m port slotId = some (.kInvalidSlotID, c) := by
  unfold addressDevice allocDevice
  rw [if_pos hslot]
  simp only [Option.bind_eq_bind, Option.bind_some]
  rw [show c.findBySlot slotId = none from if_pos hslot]

/-- The completions that the port does not wait for, or without their slot, are errors and change
nothing. -/
theorem onCommandCompletion_of_not_awaited (hnot : ¬ CommandAwaited m c trb) :
    ∃ err, err.failed = true ∧ c.onCommandCompletion m trb = some (err, c) := by
  have hphase : SlotFound c (commandType m trb) (CommandCompletionEventTRB.slotId trb) →
      c.portConfigPhase (commandPort m c trb) ≠ awaitingPhase (commandType m trb) :=
    fun hslot heq => hnot ⟨heq, hslot⟩
  unfold SlotFound commandPort awaitingPhase commandType at hphase
  unfold onCommandCompletion
  simp only
  -- the three commands the driver issues; any other completion is an error anyway
  split
  · next henable =>
    simp only [if_pos henable] at hphase
    split
    · exact ⟨.kInvalidPhase, rfl, rfl⟩
    · next hwaits =>
      refine ⟨.kInvalidSlotID, rfl, addressDevice_of_lt (BitVec.not_le.mp fun hslot => ?_)⟩
      exact hphase hslot (Decidable.not_not.mp hwaits)
  · next henable =>
    simp only [if_neg henable] at hphase
    split
    · next haddress =>
      simp only [if_pos haddress] at hphase
      split
      · exact ⟨.kInvalidSlotID, rfl, rfl⟩
      · next d hd =>
        unfold onAddressDeviceCompleted
        split
        · exact ⟨.kInvalidPhase, rfl, rfl⟩
        · rw [if_pos (hphase (by rw [hd]; rfl))]
          exact ⟨.kInvalidPhase, rfl, rfl⟩
    · next haddress =>
      simp only [if_neg haddress] at hphase
      split
      · split
        · exact ⟨.kInvalidSlotID, rfl, rfl⟩
        · next d hd =>
          rw [if_pos (hphase (by rw [hd]; rfl))]
          exact ⟨.kInvalidPhase, rfl, rfl⟩
      · exact ⟨.kInvalidPhase, rfl, rfl⟩

/-- A completion that is awaited takes its port to the next phase. -/
theorem onCommandCompletion_advances (hports : PortInvariant c.portState)
    (hissuer : commandType m trb ∈
      [EnableSlotCommandTRB.type, AddressDeviceCommandTRB.type, ConfigureEndpointCommandTRB.type])
    (hawaited : CommandAwaited m c trb) (h : c.onCommandCompletion m trb = some (err, c')) :
    (c.portConfigPhase (commandPort m c trb)).number <
      (c'.portConfigPhase (commandPort m c trb)).number := by
  obtain ⟨hphase, hslot⟩ := hawaited
  unfold SlotFound at hslot
  unfold awaitingPhase at hphase
  unfold onCommandCompletion at h
  simp only [← commandType.eq_1 m trb] at h
  simp only [List.mem_cons, List.not_mem_nil, or_false] at hissuer
  -- one case for each command, with its own phase and the one behind it
  rcases hissuer with htype | htype | htype
  · have hport : commandPort m c trb = c.addressingPort := if_pos htype
    rw [if_pos htype] at hphase hslot h
    rw [hport] at hphase ⊢
    rw [if_neg (not_not_intro hphase)] at h
    have hnext : c'.portConfigPhase c.addressingPort = .kAddressingDevice := by
      rcases addressDevice_cases h with ⟨hlt, -⟩ | ⟨_, _, _, _, _, -, -, -, -, -, rfl⟩
      · exact absurd hslot (BitVec.not_le.mpr hlt)
      · exact Function.update_self _ _ _
    rw [hphase, hnext]
    decide
  · have hother : commandType m trb ≠ EnableSlotCommandTRB.type := by
      rw [htype]
      decide
    rw [if_neg hother] at hphase hslot h
    rw [if_pos htype] at hphase h
    obtain ⟨d, hd⟩ := Option.isSome_iff_exists.mp hslot
    simp only [hd] at h
    have hport : commandPort m c trb = _ := if_neg hother
    rw [← hport] at h
    have haddressing := ((hports.addressing (commandPort m c trb)).mp (by
      show (c.portConfigPhase _).addressing = true
      rw [hphase]
      rfl)).1
    have hnext : c'.portConfigPhase (commandPort m c trb) = .kInitializingDevice := by
      rcases onAddressDeviceCompleted_portState hd h with ⟨hrefused, -⟩ |
        ⟨-, -, ⟨-, hstate⟩ | ⟨_, -, -, hstate⟩⟩
      · exact absurd hphase (hrefused haddressing)
      · exact (congrFun (congrArg PortState.phase hstate) _).trans (Function.update_self _ _ _)
      · exact (congrFun (congrArg PortState.phase hstate) _).trans (Function.update_self _ _ _)
    rw [hphase, hnext]
    decide
  · have hother : commandType m trb ≠ EnableSlotCommandTRB.type := by
      rw [htype]
      decide
    have hother' : commandType m trb ≠ AddressDeviceCommandTRB.type := by
      rw [htype]
      decide
    rw [if_neg hother] at hphase hslot h
    rw [if_neg hother'] at hphase h
    rw [if_pos htype] at h
    obtain ⟨d, hd⟩ := Option.isSome_iff_exists.mp hslot
    simp only [hd] at h
    have hport : commandPort m c trb = _ := if_neg hother
    rw [← hport, if_neg (not_not_intro hphase)] at h
    have hnext : c'.portConfigPhase (commandPort m c trb) = .kConfigured := by
      rcases completeConfiguration_cases h with ⟨hnone, -⟩ | ⟨_, _, _, -, -, rfl⟩
      · exact absurd (hnone.symm.trans hd) (by simp)
      · exact Function.update_self _ _ _
    rw [hphase, hnext]
    decide

/-- In every state that the driver reaches, the completion of a failed command stops its port
exactly when the port does not wait for the command or the slot is not found. -/
theorem failedCommand_stops_iff {maxPorts : BitVec 8} {commandRing : BitVec 64}
    {scratchpad : Option (BitVec 64)}
    (h : (controllerSystem maxPorts commandRing scratchpad).Reachable c)
    (hfailed : CommandFailed m trb) :
    (∃ err c', c.onEvent m trb = some (err, c') ∧
      PortStopped c (commandPort m c trb) err c') ↔ ¬ CommandAwaited m c trb := by
  rw [onEvent_of_commandCompletion hfailed.type]
  constructor
  · rintro ⟨err, c', hevent, hstopped⟩ hawaited
    have hadvances := onCommandCompletion_advances (portInvariant_of_reachable h) hfailed.issuer
      hawaited hevent
    rcases hstopped.phase with hsame | hback
    · rw [hsame] at hadvances
      exact absurd hadvances (Nat.lt_irrefl _)
    · exact absurd hadvances (Nat.lt_asymm hback)
  · intro hnot
    obtain ⟨err, herr, hevent⟩ := onCommandCompletion_of_not_awaited hnot
    exact ⟨err, c, hevent, stopped_refl herr⟩

end Controller

/-! A device is plugged in, and the controller has no slot left for it. -/

def failedCompletionEvent (code slotId : BitVec 8) : TRB :=
  ![0#32, 0#32, code ++ 0#24, slotId ++ 0#8 ++ CommandCompletionEventTRB.type ++ 0#10]

/-- The driver waits for the slot of the device on port 1. -/
def onePlugged : Option Controller := do
  let m := exampleMachine (pluggedPorts [1#8]) 0
  let c := ((Controller.initializeWith 4#8 0x1000#64 (some 0x8000#64)).configurePort m 1#8).2
  let (_, c) ← c.onEvent m (portStatusChangeEvent 1#8)
  some c

theorem onePlugged_reachable {c : Controller} (h : onePlugged = some c) :
    (controllerSystem 4#8 0x1000#64 (some 0x8000#64)).Reachable c := by
  unfold onePlugged at h
  simp only [Option.bind_eq_bind, Option.bind_eq_some_iff] at h
  obtain ⟨⟨err₁, c₁⟩, hreset, h⟩ := h
  obtain rfl := Option.some.inj h
  have hstart : (controllerSystem 4#8 0x1000#64 (some 0x8000#64)).Reachable
      (.initializeWith 4#8 0x1000#64 (some 0x8000#64)) := .start rfl
  have hport := hstart.next (.configurePort
    (exampleMachine (pluggedPorts [1#8]) 0) 1#8 (by decide) (by decide))
  exact hport.next (.processEvent _ (fun _ => by decide) hreset)

/-- The machine when an Enable Slot command completes. -/
def enableSlotMachine : Machine :=
  exampleMachine (pluggedPorts [1#8]) EnableSlotCommandTRB.make

/-- No Slots Available, with slot 0. -/
def noSlotsEvent : TRB := failedCompletionEvent 9#8 0#8

theorem commandFailed_noSlots : CommandFailed enableSlotMachine noSlotsEvent where
  type := by decide
  issuer := List.mem_cons_self
  code := by decide

/-- The port before and after its Enable Slot command fails, the device of slot 0, and how many
commands were issued. -/
def noSlotsAnswer :
    Option (Error × (ConfigPhase × ConfigPhase) × (Bool × Bool) × ℕ × ℕ) := do
  let c ← onePlugged
  let (err, c') ← c.onEvent enableSlotMachine noSlotsEvent
  some (err, (c.portConfigPhase 1#8, c'.portConfigPhase 1#8),
    ((c.devices 0#8).isSome, (c'.devices 0#8).isSome), c.commandRing.pushed.length,
    c'.commandRing.pushed.length)

/-- A failed Enable Slot command is a success for the driver: the port goes on, and a device is
created and addressed. -/
theorem failedEnableSlot_goes_on :
    ∃ c c', (controllerSystem 4#8 0x1000#64 (some 0x8000#64)).Reachable c ∧
      CommandFailed enableSlotMachine noSlotsEvent ∧
      c.onEvent enableSlotMachine noSlotsEvent = some (.kSuccess, c') ∧
      c.portConfigPhase 1#8 = .kEnablingSlot ∧ c'.portConfigPhase 1#8 = .kAddressingDevice ∧
      c.devices 0#8 = none ∧ (c'.devices 0#8).isSome = true ∧
      c'.commandRing.pushed.length = c.commandRing.pushed.length + 1 ∧
      ¬ ∃ err c'', c.onEvent enableSlotMachine noSlotsEvent = some (err, c'') ∧
        PortStopped c (commandPort enableSlotMachine c noSlotsEvent) err c'' := by
  have hanswer : noSlotsAnswer =
      some (.kSuccess, (.kEnablingSlot, .kAddressingDevice), (false, true), 1, 2) := by
    decide +kernel
  unfold noSlotsAnswer at hanswer
  simp only [Option.bind_eq_bind, Option.bind_eq_some_iff] at hanswer
  obtain ⟨c, hc, ⟨err, c'⟩, hevent, hanswer⟩ := hanswer
  simp only [Option.some.injEq, Prod.mk.injEq] at hanswer
  obtain ⟨rfl, ⟨hbefore, hafter⟩, ⟨hnone, hsome⟩, hpushed, hpushed'⟩ := hanswer
  refine ⟨c, c', onePlugged_reachable hc, commandFailed_noSlots, hevent, hbefore, hafter, ?_,
    hsome, by omega, ?_⟩
  · exact Option.not_isSome_iff_eq_none.mp (by rw [hnone]; decide)
  · rintro ⟨err, c'', hevent', hstopped⟩
    obtain ⟨rfl, -⟩ := Prod.mk.inj (Option.some.inj (hevent'.symm.trans hevent))
    exact absurd hstopped.failed (by decide)

/-- The Enable Slot command that fails is the one that the port waits for. -/
theorem failedCommand_stops_iff_plugged :
    ∃ c, (controllerSystem 4#8 0x1000#64 (some 0x8000#64)).Reachable c ∧
      CommandAwaited enableSlotMachine c noSlotsEvent ∧
      ¬ ∃ err c', c.onEvent enableSlotMachine noSlotsEvent = some (err, c') ∧
        PortStopped c (commandPort enableSlotMachine c noSlotsEvent) err c' := by
  have hwaits : onePlugged.map (fun c => (c.addressingPort, c.portConfigPhase 1#8)) =
      some (1#8, .kEnablingSlot) := by decide +kernel
  obtain ⟨c, hc, hwaits⟩ := Option.map_eq_some_iff.mp hwaits
  obtain ⟨hport, hphase⟩ := Prod.mk.inj hwaits
  have htype : commandType enableSlotMachine noSlotsEvent = EnableSlotCommandTRB.type := by decide
  have hawaited : CommandAwaited enableSlotMachine c noSlotsEvent := by
    constructor
    · rw [commandPort, if_pos htype, hport, hphase, awaitingPhase, if_pos htype]
    · rw [SlotFound, if_pos htype]
      decide
  have hreach := onePlugged_reachable hc
  refine ⟨c, hreach, hawaited, fun hstops => ?_⟩
  exact (Controller.failedCommand_stops_iff hreach commandFailed_noSlots).mp hstops hawaited

end TommyOS.Usb
