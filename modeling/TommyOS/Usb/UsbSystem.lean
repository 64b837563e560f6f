import TommyOS.Usb.DeviceStages
import TommyOS.Usb.PortAddressing

/-!
# The driver and the controller

The rings of the driver between the driver, which pushes TRBs, and the controller, which consumes
them in their order and posts events about them. The driver handles one event after the other.
What the controller does in the middle of a call is the same as done before or behind it: it only
consumes more TRBs and posts more events, of which the call reads none. A TRB with an event counts
as consumed when the event is posted; until then it is needed.
-/

namespace TommyOS.Usb

/-! ## Rings -/

/-- The command ring, and the ring of an endpoint by the index of its context. -/
inductive RingId where
  | command
  | transfer (slotId : BitVec 8) (index : ℕ)
deriving DecidableEq

namespace Controller

def ring (c : Controller) : RingId → Option LoggedRing
  | .command => some c.commandRing
  | .transfer slotId index => (c.devices slotId).bind fun d => d.transferRings index

/-- All that was pushed to a ring. -/
def pushedTo (c : Controller) (ρ : RingId) : List TRB :=
  match c.ring ρ with
  | some r => r.pushed
  | none => []

end Controller

/-! ## State -/

/-- An event with the TRB it is about, by its ring and its number there, and the slot that it
assigns. -/
structure PostedEvent where
  trb : TRB
  issuer : Option (RingId × ℕ)
  newSlot : Option (BitVec 8)

/-- How many TRBs of each ring are consumed, the events that are not handled, and the slots that
were assigned. -/
structure UsbState where
  driver : Controller
  consumed : RingId → ℕ
  events : List PostedEvent
  assigned : List (BitVec 8)

/-- The fields of an event about the TRB with a number on a ring. -/
def Reports (trb : TRB) (ρ : RingId) (r : LoggedRing) (number : ℕ) : Prop :=
  match ρ with
  | .command =>
    trb.trbType = CommandCompletionEventTRB.type ∧
      trb.pointer = Ring.slotAddress r.base (number % 31)
  | .transfer slotId index =>
    trb.trbType = TransferEventTRB.type ∧ TransferEventTRB.slotId trb = slotId ∧
      TransferEventTRB.endpointID trb = ⟨index + 1⟩ ∧
      TransferEventTRB.pointer trb = Ring.slotAddress r.base (number % 31)

/-! ## Steps -/

/-- The machine while the driver handles an event: the rings are in its memory, a device context
has no port or the one it was given, a device is not at address 0, and the devices have
well-formed descriptors. -/
structure Environment (m : Machine) (c : Controller) (trb : TRB) : Prop where
  memory : ∀ ρ r, c.ring ρ = some r → ∀ n, n < 31 →
    m.trbAt (Ring.slotAddress r.base n) = r.buf n
  rootHubPort : ∀ slotId d, c.devices slotId = some d →
    (m.slotContext slotId).rootHubPortNum = 0#8 ∨
      (m.slotContext slotId).rootHubPortNum = d.inputContext.slotContext.rootHubPortNum
  newDevice : ∀ addresses, m.newDevice = some addresses → addresses.buf ≠ 0#64
  answer : Device.ValidAnswer m trb

/-- The calls of the driver and the steps of the controller. It consumes the next TRB of a ring
and may post one event about it; only a completed Enable Slot command assigns a slot, a new one
each time. -/
inductive UsbStep (s : UsbState) : UsbState → Prop where
  | configurePort (m : Machine) (port : BitVec 8) : 1#8 ≤ port → port ≤ s.driver.maxPorts →
      UsbStep s { s with driver := (s.driver.configurePort m port).2 }
  | processEvent {m : Machine} {e : PostedEvent} {events : List PostedEvent} {err : Error}
      {c : Controller} : s.events = e :: events → Environment m s.driver e.trb →
      s.driver.onEvent m e.trb = some (err, c) →
      UsbStep s { s with driver := c, events := events }
  | portStatusChange (trb : TRB) : trb.trbType = PortStatusChangeEventTRB.type →
      1#8 ≤ PortStatusChangeEventTRB.portId trb →
      PortStatusChangeEventTRB.portId trb ≤ s.driver.maxPorts →
      UsbStep s { s with events := s.events ++ [⟨trb, none, none⟩] }
  | consume {ρ : RingId} : s.consumed ρ < (s.driver.pushedTo ρ).length →
      UsbStep s { s with consumed := Function.update s.consumed ρ (s.consumed ρ + 1) }
  | complete {ρ : RingId} {r : LoggedRing} {issuer trb : TRB} : s.driver.ring ρ = some r →
      r.pushed[s.consumed ρ]? = some issuer → issuer.trbType ≠ EnableSlotCommandTRB.type →
      Reports trb ρ r (s.consumed ρ) →
      UsbStep s
        { s with
          consumed := Function.update s.consumed ρ (s.consumed ρ + 1)
          events := s.events ++ [⟨trb, some (ρ, s.consumed ρ), none⟩] }
  | enableSlot (issuer trb : TRB) :
      s.driver.commandRing.pushed[s.consumed .command]? = some issuer →
      issuer.trbType = EnableSlotCommandTRB.type →
      Reports trb .command s.driver.commandRing (s.consumed .command) →
      1#8 ≤ CommandCompletionEventTRB.slotId trb →
      CommandCompletionEventTRB.slotId trb ≤ Controller.kDeviceSize →
      CommandCompletionEventTRB.slotId trb ∉ s.assigned →
      UsbStep s
        { s with
          consumed := Function.update s.consumed .command (s.consumed .command + 1)
          events := s.events ++ [⟨trb, some (.command, s.consumed .command),
            some (CommandCompletionEventTRB.slotId trb)⟩]
          assigned := CommandCompletionEventTRB.slotId trb :: s.assigned }

/-- The driver and the controller from `Initialize` on. -/
def usbSystem (maxPorts : BitVec 8) (commandRing : BitVec 64) (scratchpad : Option (BitVec 64)) :
    TransitionSystem UsbState where
  init s := s = ⟨.initializeWith maxPorts commandRing scratchpad, fun _ => 0, [], []⟩
  step := UsbStep

/-! ## What the rings are needed for -/

namespace UsbState

/-- A TRB that is not consumed, or the event about it is not handled. -/
def Live (s : UsbState) (ρ : RingId) (number : ℕ) : Prop :=
  s.consumed ρ ≤ number ∨ ∃ e ∈ s.events, e.issuer = some (ρ, number)

variable {s t : UsbState} {ρ : RingId} {j : ℕ}

/-- No step makes a TRB live again. -/
theorem live_of_step (h : UsbStep s t) (hlive : t.Live ρ j) : s.Live ρ j := by
  -- consuming only raises the count
  have hconsume : ∀ {ρ'}, Function.update s.consumed ρ' (s.consumed ρ' + 1) ρ ≤ j →
      s.consumed ρ ≤ j := by
    intro ρ' hle
    rw [Function.update_apply] at hle
    split at hle
    · next heq =>
      rw [heq]
      omega
    · exact hle
  -- the TRB of a new event was the next to be consumed
  have hpost : ∀ {e ρ'}, e.issuer = some (ρ', s.consumed ρ') →
      (∃ e' ∈ s.events ++ [e], e'.issuer = some (ρ, j)) → s.Live ρ j := by
    rintro e ρ' hissuer ⟨e', he', heq⟩
    rcases List.mem_append.mp he' with hold | hnew
    · exact .inr ⟨e', hold, heq⟩
    · rw [List.mem_singleton.mp hnew, hissuer, Option.some.injEq, Prod.mk.injEq] at heq
      obtain ⟨rfl, rfl⟩ := heq
      exact .inl (Nat.le_refl _)
  cases h with
  | configurePort _ _ _ _ => exact hlive
  | processEvent hevents _ _ =>
    rcases hlive with hle | ⟨e', he', hissuer⟩
    · exact .inl hle
    · exact .inr ⟨e', by rw [hevents]; exact List.mem_cons_of_mem _ he', hissuer⟩
  | portStatusChange _ _ _ _ =>
    rcases hlive with hle | ⟨e', he', hissuer⟩
    · exact .inl hle
    · rcases List.mem_append.mp he' with hold | hnew
      · exact .inr ⟨e', hold, hissuer⟩
      · rw [List.mem_singleton.mp hnew] at hissuer
        exact absurd hissuer (by simp)
  | consume _ =>
    rcases hlive with hle | hpending
    · exact .inl (hconsume hle)
    · exact .inr hpending
  | complete _ _ _ _ =>
    rcases hlive with hle | hpending
    · exact .inl (hconsume hle)
    · exact hpost rfl hpending
  | enableSlot _ _ _ _ _ _ _ _ =>
    rcases hlive with hle | hpending
    · exact .inl (hconsume hle)
    · exact hpost rfl hpending

end UsbState

end TommyOS.Usb
