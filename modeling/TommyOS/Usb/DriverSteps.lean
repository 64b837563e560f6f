import TommyOS.Usb.DeviceReports
import TommyOS.Usb.UsbInvariant

/-!
# Steps of the driver

What the calls of the driver do to the device of a slot and to the command ring, and that the
invariant is kept.
-/

namespace TommyOS.Usb

namespace UsbState

/-- Behind a call of the driver. -/
def after (s : UsbState) (c : Controller) (events : List PostedEvent) : UsbState :=
  { s with driver := c, events := events }

/-- All live TRBs are among the last before the number of a new one. -/
def Safe (s : UsbState) (ρ : RingId) (number : ℕ) : Prop := ∀ j, s.Live ρ j → number < j + 30

end UsbState

/-- What a call does to the device of a slot. -/
inductive SlotStep (s : UsbState) (c : Controller) (events : List PostedEvent)
    (slotId : BitVec 8) : Prop where
  | unused : s.driver.devices slotId = none → c.devices slotId = none → SlotStep s c events slotId
  | same (d : Device) : s.driver.devices slotId = some d → c.devices slotId = some d →
      c.portConfigPhase d.port = s.driver.portConfigPhase d.port → SlotStep s c events slotId
  | added (d : Device) : s.driver.devices slotId = none → c.devices slotId = some d →
      slotId ∈ s.assigned → (∀ e ∈ events, e.newSlot ≠ some slotId) →
      (s.after c events).DeviceInvariant slotId d → (∀ i, d.pushedTo i = []) →
      (∀ slotId', slotId' ≠ slotId → c.devices slotId' = s.driver.devices slotId') →
      (∀ slotId' d', s.driver.devices slotId' = some d' → d'.port ≠ d.port) →
      SlotStep s c events slotId
  | changed (d d' : Device) : s.driver.devices slotId = some d → c.devices slotId = some d' →
      d'.port = d.port → d.Extends d' → (s.after c events).DeviceInvariant slotId d' →
      (∀ i k, (d.pushedTo i).length ≤ k → k < (d'.pushedTo i).length →
        s.Safe (.transfer slotId i) k) → SlotStep s c events slotId

/-- A call of the driver, for the events that are left. -/
structure DriverStep (s : UsbState) (c : Controller) (events : List PostedEvent) : Prop where
  slot : ∀ slotId, SlotStep s c events slotId
  maxPorts : c.maxPorts = s.driver.maxPorts
  command : c.commandRing = s.driver.commandRing ∨
    ∃ cmd p, s.driver.commandRing.push cmd = some (p, c.commandRing)
  commands : c.commandRing.pushed.length ≤ c.commandBudget

section DriverStep

variable {s : UsbState} {c : Controller} {events : List PostedEvent}

theorem live_of_after (hevents : events <:+ s.events) {ρ : RingId} {j : ℕ}
    (h : (s.after c events).Live ρ j) : s.Live ρ j := by
  rcases h with hle | ⟨e, he, hissuer⟩
  · exact .inl hle
  · exact .inr ⟨e, hevents.subset he, hissuer⟩

theorem DriverStep.commandRing (h : DriverStep s c events) (hinv : UsbInvariant s) :
    c.commandRing.WellFormed ∧ c.commandRing.base = s.driver.commandRing.base ∧
      s.driver.commandRing.pushed <+: c.commandRing.pushed := by
  rcases h.command with hsame | ⟨cmd, p, hpush⟩
  · rw [hsame]
    exact ⟨hinv.commandRing, rfl, List.prefix_rfl⟩
  · rw [LoggedRing.push_pushed hpush]
    exact ⟨hinv.commandRing.push hpush, LoggedRing.push_base hpush, ⟨[cmd], rfl⟩⟩

theorem ring_transfer {slotId : BitVec 8} {i : ℕ} {r : LoggedRing} :
    c.ring (.transfer slotId i) = some r ↔
      ∃ d, c.devices slotId = some d ∧ d.transferRings i = some r := by
  show (c.devices slotId).bind (fun d => d.transferRings i) = some r ↔ _
  rw [Option.bind_eq_some_iff]

theorem pushedTo_transfer {slotId : BitVec 8} {d : Device} (hd : c.devices slotId = some d)
    (i : ℕ) : c.pushedTo (.transfer slotId i) = d.pushedTo i := by
  have hring : c.ring (.transfer slotId i) = d.transferRings i := by
    show (c.devices slotId).bind (fun d => d.transferRings i) = _
    rw [hd]
    rfl
  unfold Controller.pushedTo
  rw [hring]
  rfl

theorem pushedTo_transfer_of_none {slotId : BitVec 8} (hd : c.devices slotId = none) (i : ℕ) :
    c.pushedTo (.transfer slotId i) = [] := by
  unfold Controller.pushedTo Controller.ring
  simp only [hd, Option.bind_none]

theorem DriverStep.extends_after (h : DriverStep s c events) (hinv : UsbInvariant s) :
    s.Extends (s.after c events) := by
  intro ρ r hr hused
  cases ρ with
  | command =>
    obtain rfl := Option.some.inj hr
    obtain ⟨-, hbase, hprefix⟩ := h.commandRing hinv
    exact ⟨c.commandRing, rfl, hbase, hprefix⟩
  | transfer slotId i =>
    obtain ⟨d₀, hd₀, hring⟩ := ring_transfer.mp hr
    cases h.slot slotId with
    | unused hd _ => exact absurd (hd₀.symm.trans hd) (by simp)
    | added _ hd _ _ _ _ _ _ _ => exact absurd (hd₀.symm.trans hd) (by simp)
    | same d hd hd' _ =>
      obtain rfl := Option.some.inj (hd₀.symm.trans hd)
      exact ⟨r, ring_transfer.mpr ⟨d₀, hd', hring⟩, rfl, List.prefix_rfl⟩
    | changed d d' hd hd' _ hextend _ _ =>
      obtain rfl := Option.some.inj (hd₀.symm.trans hd)
      obtain ⟨r', hr', hbase, hprefix⟩ := hextend i r hring hused
      exact ⟨r', ring_transfer.mpr ⟨d', hd', hr'⟩, hbase, hprefix⟩

/-- What was pushed stays. -/
theorem DriverStep.length_le (h : DriverStep s c events) (hinv : UsbInvariant s) (ρ : RingId) :
    (s.driver.pushedTo ρ).length ≤ (c.pushedTo ρ).length := by
  cases ρ with
  | command => exact (h.commandRing hinv).2.2.length_le
  | transfer slotId i =>
    cases h.slot slotId with
    | unused hd _ =>
      rw [pushedTo_transfer_of_none hd]
      exact Nat.zero_le _
    | added _ hd _ _ _ _ _ _ _ =>
      rw [pushedTo_transfer_of_none hd]
      exact Nat.zero_le _
    | same d hd hd' _ => rw [pushedTo_transfer hd, pushedTo_transfer hd']
    | changed d d' hd hd' _ hextend _ _ =>
      rw [pushedTo_transfer hd, pushedTo_transfer hd']
      exact Device.length_le_of_extends hextend i

/-- What is pushed to a ring does not reach the live TRBs. -/
theorem DriverStep.safe (h : DriverStep s c events) {ρ : RingId} {k : ℕ}
    (hold : (s.driver.pushedTo ρ).length ≤ k) (hnew : k < (c.pushedTo ρ).length) : s.Safe ρ k := by
  cases ρ with
  | command =>
    intro j _
    have hlength : c.commandRing.pushed.length ≤ 25 := h.commands.trans c.commandBudget_le
    have hk : k < c.commandRing.pushed.length := hnew
    omega
  | transfer slotId i =>
    cases h.slot slotId with
    | unused _ hd' =>
      rw [pushedTo_transfer_of_none hd'] at hnew
      exact absurd hnew (Nat.not_lt_zero k)
    | added d _ hd' _ _ _ hempty _ _ =>
      rw [pushedTo_transfer hd', hempty i] at hnew
      exact absurd hnew (Nat.not_lt_zero k)
    | same d hd hd' _ =>
      rw [pushedTo_transfer hd] at hold
      rw [pushedTo_transfer hd'] at hnew
      exact absurd hnew (Nat.not_lt.mpr hold)
    | changed d d' hd hd' _ _ _ hsafe =>
      rw [pushedTo_transfer hd] at hold
      rw [pushedTo_transfer hd'] at hnew
      exact hsafe i k hold hnew

/-- The device of a slot behind a call, with the port it had if it is not new. -/
theorem DriverStep.device_cases (h : DriverStep s c events) {slotId : BitVec 8} {d' : Device}
    (hd' : c.devices slotId = some d') :
    (∃ d, s.driver.devices slotId = some d ∧ d'.port = d.port) ∨
      (s.driver.devices slotId = none ∧
        (∀ slotId', slotId' ≠ slotId → c.devices slotId' = s.driver.devices slotId') ∧
        ∀ slotId' d, s.driver.devices slotId' = some d → d.port ≠ d'.port) := by
  cases h.slot slotId with
  | unused _ hnone => exact absurd (hd'.symm.trans hnone) (by simp)
  | added d hd hdnew _ _ _ _ hothers hports =>
    obtain rfl := Option.some.inj (hd'.symm.trans hdnew)
    exact .inr ⟨hd, hothers, hports⟩
  | same d hd hdnew _ =>
    obtain rfl := Option.some.inj (hd'.symm.trans hdnew)
    exact .inl ⟨d', hd, rfl⟩
  | changed d d₁ hd hdnew hport _ _ _ =>
    obtain rfl := Option.some.inj (hd'.symm.trans hdnew)
    exact .inl ⟨d, hd, hport⟩

theorem DriverStep.invariant (h : DriverStep s c events) (hinv : UsbInvariant s)
    (hports : PortInvariant c.portState) (hevents : events <:+ s.events) :
    UsbInvariant (s.after c events) where
  ports := hports
  commandRing := (h.commandRing hinv).1
  commands := h.commands
  device := by
    intro slotId d' hd'
    -- a slot gets its device, keeps it or has it changed by a handler
    cases h.slot slotId with
    | unused _ hnone => exact absurd (hd'.symm.trans hnone) (by simp)
    | added d _ hd _ _ hdevice _ _ _ =>
      obtain rfl := Option.some.inj (hd'.symm.trans hd)
      exact hdevice
    | same d hd hdnew hphase =>
      obtain rfl := Option.some.inj (hd'.symm.trans hdnew)
      exact (hinv.device slotId d' hd).mono (fun _ _ => live_of_after hevents) hphase
    | changed d d₁ hd hdnew _ _ hdevice _ =>
      obtain rfl := Option.some.inj (hd'.symm.trans hdnew)
      exact hdevice
  distinct := by
    intro slotId slotId' d d' hd hd' hport
    by_contra hne
    -- two devices were on different ports, and a new one is on a port of its own
    rcases h.device_cases hd with ⟨d₀, hd₀, hport₀⟩ | ⟨-, hothers, hfresh⟩
    · rcases h.device_cases hd' with ⟨d₁, hd₁, hport₁⟩ | ⟨-, -, hfresh⟩
      · exact hne (hinv.distinct _ _ _ _ hd₀ hd₁ (by rw [← hport₀, ← hport₁, hport]))
      · exact hfresh slotId d₀ hd₀ (by rw [← hport₀, hport])
    · -- the other one was there before
      exact hfresh slotId' d' ((hothers slotId' (Ne.symm hne)).symm.trans hd') hport.symm
  consumed := fun ρ => (hinv.consumed ρ).trans (h.length_le hinv ρ)
  event := fun e he => (hinv.event e (hevents.subset he)).mono (h.extends_after hinv)
    (fun _ => Nat.le_refl _) h.maxPorts
  sorted := hinv.sorted.sublist hevents.sublist
  assigned := hinv.assigned
  used := by
    intro slotId d' hd'
    cases h.slot slotId with
    | unused _ hnone => exact absurd (hd'.symm.trans hnone) (by simp)
    | added _ _ _ hassigned _ _ _ _ _ => exact hassigned
    | same d hd _ _ => exact hinv.used slotId d hd
    | changed d _ hd _ _ _ _ _ => exact hinv.used slotId d hd
  newSlots := hinv.newSlots.sublist hevents.sublist
  unused := by
    intro e he slotId hslot
    obtain ⟨hassigned, hnone⟩ := hinv.unused e (hevents.subset he) slotId hslot
    refine ⟨hassigned, ?_⟩
    cases h.slot slotId with
    | unused _ hnone' => exact hnone'
    | added _ _ _ _ hnew _ _ _ _ => exact absurd hslot (hnew e he)
    | same d hd _ _ => exact absurd (hd.symm.trans hnone) (by simp)
    | changed d _ hd _ _ _ _ _ => exact absurd (hd.symm.trans hnone) (by simp)

end DriverStep

end TommyOS.Usb
