import TommyOS.Lib.TransitionSystem
import TommyOS.Usb.XhciTheorems

/-!
# The addressing of the ports

From the reset of a root hub port until its device has an address the driver attends to that
port alone; the others wait. `PortStep` says which steps the phases of the ports may take, with
no device, ring or register in sight; every call of the driver takes one of them or none.
-/

namespace TommyOS.Usb

/-- The phases between reset and address. -/
def ConfigPhase.addressing : ConfigPhase → Bool
  | .kResettingPort => true
  | .kEnablingSlot => true
  | .kAddressingDevice => true
  | _ => false

/-- The next phase of a port, of which a port that need not wait skips the second. -/
inductive ConfigPhase.Advances : ConfigPhase → ConfigPhase → Prop where
  | wait : Advances .kNotConnected .kWaitingAddressed
  | reset : Advances .kNotConnected .kResettingPort
  | resetWaiting : Advances .kWaitingAddressed .kResettingPort
  | enableSlot : Advances .kResettingPort .kEnablingSlot
  | addressDevice : Advances .kEnablingSlot .kAddressingDevice
  | initializeDevice : Advances .kAddressingDevice .kInitializingDevice
  | configureEndpoints : Advances .kInitializingDevice .kConfiguringEndpoints
  | complete : Advances .kConfiguringEndpoints .kConfigured

/-! ## The ports alone -/

/-- The phases, and the port that is being addressed. -/
structure PortState where
  phase : BitVec 8 → ConfigPhase
  addressing : BitVec 8

namespace PortState

def set (s : PortState) (port : BitVec 8) (phase : ConfigPhase) : PortState :=
  { s with phase := Function.update s.phase port phase }

end PortState

/-- What one event or call does to the ports. A device that has its address hands over to a
waiting port in the same step. -/
inductive PortStep (s : PortState) : PortState → Prop where
  | wait {port : BitVec 8} : port ≠ 0#8 → s.phase port = .kNotConnected → s.addressing ≠ 0#8 →
      PortStep s (s.set port .kWaitingAddressed)
  | reset {port : BitVec 8} : port ≠ 0#8 → s.phase port = .kNotConnected → s.addressing = 0#8 →
      PortStep s { s.set port .kResettingPort with addressing := port }
  | enableSlot {port : BitVec 8} : s.phase port = .kResettingPort →
      PortStep s (s.set port .kEnablingSlot)
  | addressDevice : s.phase s.addressing = .kEnablingSlot →
      PortStep s (s.set s.addressing .kAddressingDevice)
  | initializeDevice : s.phase s.addressing = .kAddressingDevice →
      PortStep s { s.set s.addressing .kInitializingDevice with addressing := 0#8 }
  | handOver {port : BitVec 8} : s.phase s.addressing = .kAddressingDevice →
      s.phase port = .kWaitingAddressed →
      PortStep s { (s.set port .kResettingPort).set s.addressing .kInitializingDevice with
        addressing := port }
  | configureEndpoints {port : BitVec 8} : s.phase port = .kInitializingDevice →
      PortStep s (s.set port .kConfiguringEndpoints)
  | complete {port : BitVec 8} : s.phase port = .kConfiguringEndpoints →
      PortStep s (s.set port .kConfigured)

/-- The ports at the start, and their steps. -/
def portMachine : TransitionSystem PortState where
  init s := s = ⟨fun _ => .kNotConnected, 0#8⟩
  step := PortStep

/-- The ports between reset and address are `addressing_port`, and port 0 is not used. -/
structure PortInvariant (s : PortState) : Prop where
  zero : s.phase 0#8 = .kNotConnected
  addressing : ∀ port, (s.phase port).addressing = true ↔ port = s.addressing ∧ port ≠ 0#8

namespace PortState

variable {s t : PortState}

theorem set_phase (port q : BitVec 8) (phase : ConfigPhase) :
    (s.set port phase).phase q = if q = port then phase else s.phase q :=
  Function.update_apply _ _ _ _

/-- Each port stays or goes on to its next phase. -/
theorem advances_of_step (h : PortStep s t) (q : BitVec 8) :
    t.phase q = s.phase q ∨ (s.phase q).Advances (t.phase q) := by
  have hset : ∀ port phase, (s.phase port).Advances phase →
      (s.set port phase).phase q = s.phase q ∨
        (s.phase q).Advances ((s.set port phase).phase q) := by
    intro port phase hadvances
    rw [set_phase]
    split
    · next hq => exact .inr (hq ▸ hadvances)
    · exact .inl rfl
  cases h with
  | wait _ hphase _ => exact hset _ _ (hphase ▸ .wait)
  | reset _ hphase _ => exact hset _ _ (hphase ▸ .reset)
  | enableSlot hphase => exact hset _ _ (hphase ▸ .enableSlot)
  | addressDevice hphase => exact hset _ _ (hphase ▸ .addressDevice)
  | initializeDevice hphase => exact hset _ _ (hphase ▸ .initializeDevice)
  | configureEndpoints hphase => exact hset _ _ (hphase ▸ .configureEndpoints)
  | complete hphase => exact hset _ _ (hphase ▸ .complete)
  | @handOver port haddressing hwaiting =>
    show ((s.set port _).set _ _).phase q = _ ∨
      (s.phase q).Advances (((s.set port _).set _ _).phase q)
    rw [set_phase]
    split
    · next hq => exact .inr (hq ▸ haddressing ▸ .initializeDevice)
    · exact hset _ _ (hwaiting ▸ .resetWaiting)

/-- A port may go on as long as it does not enter or leave the phases of addressing. -/
theorem invariant_set (hinv : PortInvariant s) {port : BitVec 8} {phase : ConfigPhase}
    (hport : port ≠ 0#8) (hsame : phase.addressing = (s.phase port).addressing) :
    PortInvariant (s.set port phase) := by
  refine ⟨?_, fun q => ?_⟩
  · rw [set_phase, if_neg (Ne.symm hport)]
    exact hinv.zero
  · rw [set_phase]
    split
    · next hq =>
      rw [hsame, ← hq]
      exact hinv.addressing q
    · exact hinv.addressing q

/-- Each step keeps the invariant. -/
theorem invariant_of_step (hinv : PortInvariant s) (h : PortStep s t) : PortInvariant t := by
  have hne : ∀ {port phase}, s.phase port = phase → phase ≠ .kNotConnected → port ≠ 0#8 :=
    fun hport hphase heq => hphase (hport ▸ heq ▸ hinv.zero)
  cases h with
  | wait hport hphase _ => exact invariant_set hinv hport (hphase ▸ rfl)
  | enableSlot hphase => exact invariant_set hinv (hne hphase (by decide)) (hphase ▸ rfl)
  | addressDevice hphase => exact invariant_set hinv (hne hphase (by decide)) (hphase ▸ rfl)
  | configureEndpoints hphase => exact invariant_set hinv (hne hphase (by decide)) (hphase ▸ rfl)
  | complete hphase => exact invariant_set hinv (hne hphase (by decide)) (hphase ▸ rfl)
  | @reset port hport hphase hidle =>
    refine ⟨?_, fun q => ?_⟩
    · show (s.set port _).phase 0#8 = _
      rw [set_phase, if_neg (Ne.symm hport)]
      exact hinv.zero
    · show ((s.set port _).phase q).addressing = true ↔ q = port ∧ q ≠ 0#8
      rw [set_phase]
      split
      · next hq => exact ⟨fun _ => ⟨hq, hq ▸ hport⟩, fun _ => rfl⟩
      · next hq =>
        -- no other port was in these phases
        rw [hinv.addressing q, hidle]
        exact ⟨fun hzero => absurd hzero.1 hzero.2, fun hsame => absurd hsame.1 hq⟩
  | initializeDevice hphase =>
    have hport := hne hphase (by decide)
    refine ⟨?_, fun q => ?_⟩
    · show (s.set s.addressing _).phase 0#8 = _
      rw [set_phase, if_neg (Ne.symm hport)]
      exact hinv.zero
    · show ((s.set s.addressing _).phase q).addressing = true ↔ q = 0#8 ∧ q ≠ 0#8
      rw [set_phase]
      split
      · next hq => exact ⟨fun hfalse => absurd hfalse (by decide), fun h => absurd h.1 h.2⟩
      · next hq =>
        rw [hinv.addressing q]
        exact ⟨fun h => absurd h.1 hq, fun h => absurd h.1 h.2⟩
  | @handOver port hphase hwaiting =>
    have hport := hne hphase (by decide)
    have hport' := hne hwaiting (by decide)
    have hother : port ≠ s.addressing := by
      intro heq
      rw [heq, hphase] at hwaiting
      exact absurd hwaiting (by decide)
    refine ⟨?_, fun q => ?_⟩
    · show ((s.set port _).set s.addressing _).phase 0#8 = _
      rw [set_phase, if_neg (Ne.symm hport), set_phase, if_neg (Ne.symm hport')]
      exact hinv.zero
    · show (((s.set port _).set s.addressing _).phase q).addressing = true ↔ q = port ∧ q ≠ 0#8
      rw [set_phase]
      split
      · next hq =>
        exact ⟨fun hfalse => absurd hfalse (by decide), fun h => absurd (h.1.symm.trans hq) hother⟩
      · next hq =>
        rw [set_phase]
        split
        · next hq' => exact ⟨fun _ => ⟨hq', hq' ▸ hport'⟩, fun _ => rfl⟩
        · next hq' =>
          rw [hinv.addressing q]
          exact ⟨fun h => absurd h.1 hq, fun h => absurd h.1 hq'⟩

/-- So every run does. -/
theorem invariant_of_reachable (h : portMachine.Reachable s) : PortInvariant s := by
  refine h.invariant (P := PortInvariant) (fun s hs => ?_) fun s t _ hs hst =>
    invariant_of_step hs hst
  rw [show s = _ from hs]
  exact ⟨rfl, fun port => ⟨fun hfalse => Bool.noConfusion hfalse, fun hzero =>
    absurd hzero.1 hzero.2⟩⟩

end PortState

/-! ## The driver -/

def Controller.portState (c : Controller) : PortState := ⟨c.portConfigPhase, c.addressingPort⟩

/-- A call of `ConfigurePort`, or `ProcessEvent` with some event at the front of the ring. The
registers, the memory and the event are what they may be, but that ports are numbered from 1
to `MaxPorts`. -/
inductive ControllerStep (c : Controller) : Controller → Prop where
  | configurePort (m : Machine) (port : BitVec 8) : 1#8 ≤ port → port ≤ c.maxPorts →
      ControllerStep c (c.configurePort m port).2
  | processEvent (m : Machine) {trb : TRB} {err : Error} {c' : Controller} :
      (trb.trbType = PortStatusChangeEventTRB.type →
        1#8 ≤ PortStatusChangeEventTRB.portId trb ∧
          PortStatusChangeEventTRB.portId trb ≤ c.maxPorts) →
      c.onEvent m trb = some (err, c') → ControllerStep c c'

/-- The driver from `Initialize` on. -/
def controllerSystem (maxPorts : BitVec 8) (commandRing : BitVec 64)
    (scratchpad : Option (BitVec 64)) : TransitionSystem Controller where
  init c := c = .initializeWith maxPorts commandRing scratchpad
  step := ControllerStep

namespace Controller

variable {m : Machine} {c c' : Controller} {port slotId : BitVec 8} {err : Error} {trb : TRB}

/-- `ResetPort` of a new port is a step of the ports or changes nothing. -/
theorem resetPort_portStep (hport : port ≠ 0#8) (hphase : c.portConfigPhase port = .kNotConnected) :
    (c.resetPort m port).2.portState = c.portState ∨
      PortStep c.portState (c.resetPort m port).2.portState := by
  rcases resetPort_cases m c port with ⟨-, heq⟩ | ⟨-, hbusy, heq⟩ | ⟨-, -, hn, -⟩ |
    ⟨-, hidle, -, heq⟩
  · rw [heq]
    exact .inl rfl
  · rw [heq]
    exact .inr (.wait hport hphase hbusy)
  · exact absurd hphase hn
  · rw [heq]
    exact .inr (.reset hport hphase hidle)

theorem initializeDevice_portState {d : Device}
    (h : c.initializeDevice port slotId = some (err, c')) (hd : c.findBySlot slotId = some d) :
    c'.portState = c.portState.set port .kInitializingDevice := by
  rcases initializeDevice_cases h with ⟨hnone, -⟩ | ⟨_, _, _, -, -, rfl⟩
  · rw [hd] at hnone
    exact absurd hnone (by simp)
  · rfl

/-- What the ports see of a completed Address Device command. -/
theorem onAddressDeviceCompleted_portState {d : Device} (hd : c.findBySlot slotId = some d)
    (h : c.onAddressDeviceCompleted m port slotId = some (err, c')) :
    ((port = c.addressingPort → c.portConfigPhase port ≠ .kAddressingDevice) ∧ c' = c) ∨
    (port = c.addressingPort ∧ c.portConfigPhase port = .kAddressingDevice ∧
      ((∀ waiting, c.firstWaiting = some waiting → m.isConnected waiting = false) ∧
        c'.portState = { c.portState.set port .kInitializingDevice with addressing := 0#8 } ∨
      ∃ waiting, c.firstWaiting = some waiting ∧ m.isConnected waiting = true ∧
        c'.portState = { (c.portState.set waiting .kResettingPort).set port .kInitializingDevice
          with addressing := waiting })) := by
  rcases onAddressDeviceCompleted_cases h with hrefused | ⟨hport, hphase, c₁, hhand, hinit⟩
  · exact .inl hrefused
  · right
    refine ⟨hport, hphase, ?_⟩
    rcases hhand with ⟨hnone, rfl⟩ | ⟨waiting, hwaiting, hconnected, rfl⟩
    · exact .inl ⟨hnone, initializeDevice_portState hinit ((findBySlot_congr rfl).trans hd)⟩
    · exact .inr ⟨waiting, hwaiting, hconnected,
        initializeDevice_portState hinit ((findBySlot_congr rfl).trans hd)⟩

/-- So is the handler of a command. -/
theorem onCommandCompletion_portStep
    (h : c.onCommandCompletion m trb = some (err, c')) :
    c'.portState = c.portState ∨ PortStep c.portState c'.portState := by
  rcases onCommandCompletion_cases h with rfl | ⟨-, hphase, haddress⟩ | ⟨-, d, hd, haddressed⟩ |
    ⟨-, d, -, hphase, hcomplete⟩
  · exact .inl rfl
  · rcases addressDevice_cases haddress with ⟨-, rfl⟩ | ⟨_, _, _, _, _, -, -, -, -, -, rfl⟩
    · exact .inl rfl
    · exact .inr (.addressDevice hphase)
  · rcases onAddressDeviceCompleted_portState hd haddressed with ⟨-, rfl⟩ |
      ⟨hport, hphase, ⟨-, heq⟩ | ⟨waiting, hwaiting, -, heq⟩⟩
    · exact .inl rfl
    · rw [hport] at hphase heq
      rw [heq]
      exact .inr (.initializeDevice hphase)
    · rw [hport] at hphase heq
      rw [heq]
      exact .inr (.handOver hphase (firstWaiting_eq_some hwaiting))
  · rcases completeConfiguration_cases hcomplete with ⟨-, rfl⟩ | ⟨_, _, _, -, -, rfl⟩
    · exact .inl rfl
    · exact .inr (.complete hphase)

/-- So is that of a transfer. -/
theorem onTransfer_portStep (h : c.onTransfer m trb = some (err, c')) :
    c'.portState = c.portState ∨ PortStep c.portState c'.portState := by
  rcases onTransfer_cases h with ⟨-, rfl⟩ | ⟨d, err', d', -, -, rfl | ⟨-, hphase, hconf⟩⟩
  · exact .inl rfl
  · exact .inl rfl
  · rcases configureEndpoints_cases hconf with rfl | ⟨_, _, _, _, -, -, rfl⟩
    · exact .inl rfl
    · exact .inr (.configureEndpoints hphase)

/-- So is that of a port. -/
theorem onPortStatusChange_portStep (hport : PortStatusChangeEventTRB.portId trb ≠ 0#8)
    (h : c.onPortStatusChange m trb = some (err, c')) :
    c'.portState = c.portState ∨ PortStep c.portState c'.portState := by
  unfold onPortStatusChange at h
  simp only at h
  split at h
  · next hphase =>
    have heq : c' = (c.resetPort m (PortStatusChangeEventTRB.portId trb)).2 :=
      congrArg Prod.snd (Option.some.inj h).symm
    rw [heq]
    exact resetPort_portStep hport hphase
  · next hphase =>
    rcases enableSlot_cases h with rfl | ⟨_, _, -, rfl⟩
    · exact .inl rfl
    · exact .inr (.enableSlot hphase)
  · obtain ⟨-, rfl⟩ := Prod.mk.injEq .. ▸ Option.some.inj h
    exact .inl rfl

theorem ne_zero_of_one_le (h : 1#8 ≤ port) : port ≠ 0#8 := by
  rintro rfl
  exact absurd h (by decide)

/-- Every step of the driver is one step of the ports or none. -/
theorem portStep_of_step (h : ControllerStep c c') :
    c'.portState = c.portState ∨ PortStep c.portState c'.portState := by
  cases h with
  | @configurePort m port hport _ =>
    unfold configurePort
    split
    · next hphase => exact resetPort_portStep (ne_zero_of_one_le hport) hphase
    · exact .inl rfl
  | @processEvent m trb err c' hport hevent =>
    unfold onEvent at hevent
    split at hevent
    · exact onTransfer_portStep hevent
    · split at hevent
      · next htype =>
        exact onPortStatusChange_portStep (ne_zero_of_one_le (hport htype).1) hevent
      · split at hevent
        · exact onCommandCompletion_portStep hevent
        · obtain ⟨-, rfl⟩ := Prod.mk.injEq .. ▸ Option.some.inj hevent
          exact .inl rfl

/-- The driver refines the ports alone. -/
theorem controllerSystem_simulates (maxPorts : BitVec 8) (commandRing : BitVec 64)
    (scratchpad : Option (BitVec 64)) :
    TransitionSystem.Simulates (controllerSystem maxPorts commandRing scratchpad) portMachine
      (fun c s => c.portState = s) where
  init c hc := by
    refine ⟨⟨fun _ => .kNotConnected, 0#8⟩, rfl, ?_⟩
    rw [show c = _ from hc]
    rfl
  step c c' s _ hrel hstep := by
    rcases portStep_of_step hstep with hsame | hport
    · exact .inl (hsame.trans hrel)
    · exact .inr ⟨c'.portState, hrel ▸ hport, rfl⟩

/-- The invariant of the ports holds in every run of the controller. -/
theorem portInvariant_of_reachable {maxPorts : BitVec 8} {commandRing : BitVec 64}
    {scratchpad : Option (BitVec 64)}
    (h : (controllerSystem maxPorts commandRing scratchpad).Reachable c) :
    PortInvariant c.portState := by
  obtain ⟨s, hs, rfl⟩ := (controllerSystem_simulates _ _ _).reachable h
  exact PortState.invariant_of_reachable hs

/-- In every state of every run the ports between reset and address are `addressing_port` and no
other, and from each state every step takes a port to its next phase or leaves it. -/
theorem portAddressing_exclusive {maxPorts : BitVec 8} {commandRing : BitVec 64}
    {scratchpad : Option (BitVec 64)}
    (h : (controllerSystem maxPorts commandRing scratchpad).Reachable c) :
    (∀ p q, (c.portConfigPhase p).addressing = true → (c.portConfigPhase q).addressing = true →
      p = q) ∧
    ((∃ p, (c.portConfigPhase p).addressing = true) ↔ c.addressingPort ≠ 0#8) ∧
    (∀ p, (c.portConfigPhase p).addressing = true → p = c.addressingPort) ∧
    ∀ c', ControllerStep c c' → ∀ p, c'.portConfigPhase p = c.portConfigPhase p ∨
      (c.portConfigPhase p).Advances (c'.portConfigPhase p) := by
  have hinv := portInvariant_of_reachable h
  have haddressing : ∀ p, (c.portConfigPhase p).addressing = true ↔
      p = c.addressingPort ∧ p ≠ 0#8 := hinv.addressing
  refine ⟨fun p q hp hq => ?_, ⟨?_, fun hbusy => ?_⟩, fun p hp => ?_, fun c' hstep p => ?_⟩
  · exact ((haddressing p).mp hp).1.trans ((haddressing q).mp hq).1.symm
  · rintro ⟨p, hp⟩
    obtain ⟨heq, hne⟩ := (haddressing p).mp hp
    exact heq ▸ hne
  · exact ⟨c.addressingPort, (haddressing _).mpr ⟨rfl, hbusy⟩⟩
  · exact ((haddressing p).mp hp).1
  · rcases portStep_of_step hstep with hsame | hport
    · exact .inl (congrFun (congrArg PortState.phase hsame) p)
    · exact PortState.advances_of_step hport p

end Controller

/-- A machine with some registers of the ports, the TRB of a command, and a device on port 1. -/
def exampleMachine (portsc : BitVec 8 → BitVec 32) (command : TRB) : Machine where
  portsc := portsc
  trbAt := fun _ => command
  byteAt := fun _ => 0#8
  slotContext := fun _ => ⟨0#20, 0#4, 0#5, 1#8⟩
  newDevice := some ⟨0x2000#64, 0x3000#64⟩
  newRing := fun _ => some 0x4000#64
  newDriver := none
  fuel := 0

/-- After a device was found on port 1. -/
theorem portAddressing_exclusive_onePort :
    ∃ c, (controllerSystem 4#8 0x1000#64 none).Reachable c ∧ c.addressingPort = 1#8 ∧
      (∀ p q, (c.portConfigPhase p).addressing = true → (c.portConfigPhase q).addressing = true →
        p = q) ∧
      ((∃ p, (c.portConfigPhase p).addressing = true) ↔ c.addressingPort ≠ 0#8) ∧
      (∀ p, (c.portConfigPhase p).addressing = true → p = c.addressingPort) ∧
      ∀ c', ControllerStep c c' → ∀ p, c'.portConfigPhase p = c.portConfigPhase p ∨
        (c.portConfigPhase p).Advances (c'.portConfigPhase p) := by
  have hstart : (controllerSystem 4#8 0x1000#64 none).Reachable
      (.initializeWith 4#8 0x1000#64 none) := .start rfl
  have hport := hstart.next
    (.configurePort (exampleMachine (fun _ => 1#32) 0) 1#8 (by decide) (by decide))
  exact ⟨_, hport, rfl, Controller.portAddressing_exclusive hport⟩

/-! ## Handing over -/

/-- The completion of an Address Device command that is accepted, for `addressing_port`. -/
structure AddressAccepted (m : Machine) (c : Controller) (trb : TRB) : Prop where
  type : trb.trbType = CommandCompletionEventTRB.type
  issuer : (m.trbAt trb.pointer).trbType = AddressDeviceCommandTRB.type
  device : (c.findBySlot (CommandCompletionEventTRB.slotId trb)).isSome = true
  port : (m.slotContext (CommandCompletionEventTRB.slotId trb)).rootHubPortNum = c.addressingPort
  phase : c.portConfigPhase c.addressingPort = .kAddressingDevice

/-- The first of the ports that wait is connected, or none of them is. -/
def FirstWaitingConnected (m : Machine) (c : Controller) : Prop :=
  (∃ port, c.firstWaiting = some port ∧ m.isConnected port = true) ∨
    ∀ port, c.portConfigPhase port = .kWaitingAddressed → m.isConnected port = false

namespace Controller

variable {m : Machine} {c c' : Controller} {err : Error} {trb : TRB}

theorem onEvent_of_accepted (hacc : AddressAccepted m c trb) :
    c.onEvent m trb =
      c.onAddressDeviceCompleted m c.addressingPort (CommandCompletionEventTRB.slotId trb) := by
  obtain ⟨d, hd⟩ := Option.isSome_iff_exists.mp hacc.device
  unfold onEvent onCommandCompletion
  rw [hacc.type, if_neg (by decide), if_neg (by decide), if_pos rfl]
  simp only [hacc.issuer, hd, hacc.port]
  rw [if_neg (by decide), if_pos trivial]

/-- When an address is accepted, a port that waits is connected and the driver resets one of
these next exactly when the first port that waits is connected, or none is. -/
theorem waitingPort_handedOver_iff {maxPorts : BitVec 8} {commandRing : BitVec 64}
    {scratchpad : Option (BitVec 64)}
    (h : (controllerSystem maxPorts commandRing scratchpad).Reachable c)
    (hacc : AddressAccepted m c trb) (hevent : c.onEvent m trb = some (err, c')) :
    ((∃ port, c.portConfigPhase port = .kWaitingAddressed ∧ m.isConnected port = true) →
      c'.addressingPort ≠ 0#8 ∧
      c.portConfigPhase c'.addressingPort = .kWaitingAddressed ∧
      m.isConnected c'.addressingPort = true ∧
      c'.portConfigPhase c'.addressingPort = .kResettingPort) ↔
    FirstWaitingConnected m c := by
  obtain ⟨d, hd⟩ := Option.isSome_iff_exists.mp hacc.device
  rw [onEvent_of_accepted hacc] at hevent
  rcases onAddressDeviceCompleted_portState hd hevent with ⟨hrefused, -⟩ |
    ⟨-, -, ⟨hnone, hstate⟩ | ⟨waiting, hfirst, hconnected, hstate⟩⟩
  · exact absurd hacc.phase (hrefused rfl)
  · -- no port is addressed next, which is right only when none is connected
    have haddressing : c'.addressingPort = 0#8 := congrArg PortState.addressing hstate
    constructor
    · intro hhanded
      right
      intro port hphase
      by_contra hconnected
      exact (hhanded ⟨port, hphase, (Bool.not_eq_false _).mp hconnected⟩).1 haddressing
    · rintro (⟨port, hfirst, hconnected⟩ | hall) ⟨port', hphase, hconnected'⟩
      · exact absurd (hnone port hfirst) (by rw [hconnected]; decide)
      · exact absurd (hall port' hphase) (by rw [hconnected']; decide)
  · have haddressing : c'.addressingPort = waiting := congrArg PortState.addressing hstate
    have hphase := firstWaiting_eq_some hfirst
    -- the port that is done is not one that waits
    have hother : waiting ≠ c.addressingPort := by
      intro heq
      rw [heq, hacc.phase] at hphase
      exact absurd hphase (by decide)
    have hreset : c'.portConfigPhase waiting = .kResettingPort := by
      show c'.portState.phase waiting = _
      rw [hstate]
      show ((c.portState.set waiting _).set c.addressingPort _).phase waiting = _
      rw [PortState.set_phase, if_neg hother, PortState.set_phase, if_pos rfl]
    have hzero : waiting ≠ 0#8 := by
      rintro rfl
      exact absurd ((portInvariant_of_reachable h).zero.symm.trans hphase) (by decide)
    rw [haddressing]
    exact ⟨fun _ => .inl ⟨waiting, hfirst, hconnected⟩,
      fun _ _ => ⟨hzero, hphase, hconnected, hreset⟩⟩

end Controller

/-! Three devices are plugged in; the first is addressed while the others wait. -/

def portStatusChangeEvent (port : BitVec 8) : TRB :=
  ![port ++ 0#24, 0#32, 0#32, 0#16 ++ PortStatusChangeEventTRB.type ++ 0#10]

def commandCompletionEvent (slotId : BitVec 8) : TRB :=
  ![0#32, 0#32, 0#32, slotId ++ 0#8 ++ CommandCompletionEventTRB.type ++ 0#10]

/-- Some ports are connected, enabled and have been reset. -/
def pluggedPorts (ports : List (BitVec 8)) (port : BitVec 8) : BitVec 32 :=
  if ports.any (port == ·) then 0x200003#32 else 0#32

/-- The calls and events before the address of the first device is accepted. -/
def threePlugged : Option Controller := do
  let m := exampleMachine (pluggedPorts [1#8, 2#8, 3#8])
  let c := Controller.initializeWith 4#8 0x1000#64 none
  let c := (((c.configurePort (m 0) 1#8).2.configurePort (m 0) 2#8).2.configurePort (m 0) 3#8).2
  let (_, c) ← c.onEvent (m 0) (portStatusChangeEvent 1#8)
  let (_, c) ← c.onEvent (m EnableSlotCommandTRB.make) (commandCompletionEvent 1#8)
  some c

theorem threePlugged_reachable {c : Controller} (h : threePlugged = some c) :
    (controllerSystem 4#8 0x1000#64 none).Reachable c := by
  unfold threePlugged at h
  simp only [Option.bind_eq_bind, Option.bind_eq_some_iff] at h
  obtain ⟨⟨err₁, c₁⟩, hreset, ⟨err₂, c₂⟩, henabled, h⟩ := h
  obtain rfl := Option.some.inj h
  have hstart : (controllerSystem 4#8 0x1000#64 none).Reachable
      (.initializeWith 4#8 0x1000#64 none) := .start rfl
  have hport₁ := hstart.next (.configurePort
    (exampleMachine (pluggedPorts [1#8, 2#8, 3#8]) 0) 1#8 (by decide) (by decide))
  have hport₂ := hport₁.next (.configurePort
    (exampleMachine (pluggedPorts [1#8, 2#8, 3#8]) 0) 2#8 (by decide) (by decide))
  have hport₃ := hport₂.next (.configurePort
    (exampleMachine (pluggedPorts [1#8, 2#8, 3#8]) 0) 3#8 (by decide) (by decide))
  have hevent₁ := hport₃.next (.processEvent _ (fun _ => by decide) hreset)
  exact hevent₁.next (.processEvent _ (fun htype => absurd htype (by decide)) henabled)

/-- The machine when the first address is accepted, with some ports still connected. -/
def addressedMachine (ports : List (BitVec 8)) : Machine :=
  exampleMachine (pluggedPorts ports) (AddressDeviceCommandTRB.make 0#64 1#8)

/-- The ports before and after the first address is accepted, with some ports still connected. -/
def threePluggedPhases (ports : List (BitVec 8)) :
    Option ((Bool × BitVec 8 × ConfigPhase × ConfigPhase) × BitVec 8 × ConfigPhase) := do
  let c ← threePlugged
  let (_, c') ← c.onEvent (addressedMachine ports) (commandCompletionEvent 1#8)
  some (((c.findBySlot 1#8).isSome, c.addressingPort, c.portConfigPhase 1#8,
    c.portConfigPhase 3#8), c'.addressingPort, c'.portConfigPhase 3#8)

/-- The state before the event and the one after it. -/
theorem threePlugged_accepted {ports : List (BitVec 8)} {addressing : BitVec 8}
    {phase : ConfigPhase}
    (h : threePluggedPhases ports =
      some ((true, 1#8, .kAddressingDevice, .kWaitingAddressed), addressing, phase)) :
    ∃ c err c', (controllerSystem 4#8 0x1000#64 none).Reachable c ∧
      AddressAccepted (addressedMachine ports) c (commandCompletionEvent 1#8) ∧
      c.onEvent (addressedMachine ports) (commandCompletionEvent 1#8) = some (err, c') ∧
      c.portConfigPhase 3#8 = .kWaitingAddressed ∧ c'.addressingPort = addressing ∧
      c'.portConfigPhase 3#8 = phase := by
  unfold threePluggedPhases at h
  simp only [Option.bind_eq_bind, Option.bind_eq_some_iff] at h
  obtain ⟨c, hc, ⟨err, c'⟩, hevent, h⟩ := h
  simp only [Option.some.injEq, Prod.mk.injEq] at h
  obtain ⟨⟨hdevice, haddressing, hphase, hwaiting⟩, haddressing', hphase'⟩ := h
  refine ⟨c, err, c', threePlugged_reachable hc, ?_, hevent, hwaiting, haddressing', hphase'⟩
  exact {
    type := by decide
    issuer := by
      show (AddressDeviceCommandTRB.make 0#64 1#8).trbType = _
      decide
    device := hdevice
    port := haddressing.symm
    phase := by rw [haddressing]; exact hphase }

/-- The second device was unplugged while it waited: the third is left behind. -/
theorem waitingPort_left_behind :
    ∃ c err c', (controllerSystem 4#8 0x1000#64 none).Reachable c ∧
      AddressAccepted (addressedMachine [1#8, 3#8]) c (commandCompletionEvent 1#8) ∧
      c.onEvent (addressedMachine [1#8, 3#8]) (commandCompletionEvent 1#8) = some (err, c') ∧
      c.portConfigPhase 3#8 = .kWaitingAddressed ∧
      (addressedMachine [1#8, 3#8]).isConnected 3#8 = true ∧
      c'.addressingPort = 0#8 ∧ c'.portConfigPhase 3#8 = .kWaitingAddressed := by
  have hphases : threePluggedPhases [1#8, 3#8] =
      some ((true, 1#8, .kAddressingDevice, .kWaitingAddressed), 0#8, .kWaitingAddressed) := by
    decide +kernel
  obtain ⟨c, err, c', hreach, hacc, hevent, hwaiting, haddressing, hleft⟩ :=
    threePlugged_accepted hphases
  exact ⟨c, err, c', hreach, hacc, hevent, hwaiting, by decide, haddressing, hleft⟩

/-- All three are still connected. -/
theorem waitingPort_handedOver_iff_threePlugged :
    ∃ c err c', (controllerSystem 4#8 0x1000#64 none).Reachable c ∧
      c.onEvent (addressedMachine [1#8, 2#8, 3#8]) (commandCompletionEvent 1#8) =
        some (err, c') ∧
      (((∃ port, c.portConfigPhase port = .kWaitingAddressed ∧
          (addressedMachine [1#8, 2#8, 3#8]).isConnected port = true) →
        c'.addressingPort ≠ 0#8 ∧
        c.portConfigPhase c'.addressingPort = .kWaitingAddressed ∧
        (addressedMachine [1#8, 2#8, 3#8]).isConnected c'.addressingPort = true ∧
        c'.portConfigPhase c'.addressingPort = .kResettingPort) ↔
      FirstWaitingConnected (addressedMachine [1#8, 2#8, 3#8]) c) := by
  have hphases : threePluggedPhases [1#8, 2#8, 3#8] =
      some ((true, 1#8, .kAddressingDevice, .kWaitingAddressed), 2#8, .kWaitingAddressed) := by
    decide +kernel
  obtain ⟨c, err, c', hreach, hacc, hevent, -, -, -⟩ := threePlugged_accepted hphases
  exact ⟨c, err, c', hreach, hevent, Controller.waitingPort_handedOver_iff hreach hacc hevent⟩

end TommyOS.Usb
