import TommyOS.Usb.UsbSystem
import Mathlib.Algebra.BigOperators.Group.Finset.Basic
import Mathlib.Algebra.Order.BigOperators.Group.Finset
import Mathlib.Order.Interval.Finset.Nat

/-!
# What the rings hold

The invariant of the driver and the controller: the phase of its port tells the stage of a
device, and with it which TRBs of its rings may still be live; the commands are counted by the
slots in use. A step of the driver changes the device of one slot at most.
-/

namespace TommyOS.Usb

namespace Device

/-- The root hub port of a device. -/
def port (d : Device) : BitVec 8 := d.inputContext.slotContext.rootHubPortNum

/-- The stage of a device by the phase of its port. -/
def StageAt (phase : ConfigPhase) (d : Device) : Prop :=
  match phase with
  | .kAddressingDevice => d.Blank
  | .kInitializingDevice => d.Starting ∨ ∃ w, d.Prepared w
  | .kConfiguringEndpoints => ∃ w, d.Prepared w
  | .kConfigured => ∃ w, d.Running w
  | _ => False

theorem length_le_of_extends {d d' : Device} (h : d.Extends d') (i : ℕ) :
    (d.pushedTo i).length ≤ (d'.pushedTo i).length := by
  cases hr : d.transferRings i with
  | none =>
    unfold pushedTo
    rw [hr]
    exact Nat.zero_le _
  | some r =>
    rw [pushedTo_of_eq hr]
    by_cases hused : r.pushed = []
    · rw [hused]
      exact Nat.zero_le _
    · obtain ⟨r', hr', -, hprefix⟩ := h i r hr hused
      rw [pushedTo_of_eq hr']
      exact hprefix.length_le

end Device

/-! ## Commands -/

/-- The commands about a device by the phase of its port. -/
def ConfigPhase.commands : ConfigPhase → ℕ
  | .kConfiguringEndpoints => 3
  | .kConfigured => 3
  | _ => 2

namespace Controller

/-- The commands about the device in a slot. -/
def commandWeight (c : Controller) (slotId : BitVec 8) : ℕ :=
  match c.devices slotId with
  | none => 0
  | some d => (c.portConfigPhase d.port).commands

/-- The command that enables the next slot. -/
def enabling (c : Controller) : ℕ :=
  if c.portConfigPhase c.addressingPort = .kEnablingSlot then 1 else 0

/-- All commands. -/
def commandBudget (c : Controller) : ℕ :=
  ∑ n ∈ Finset.Icc 1 8, c.commandWeight (BitVec.ofNat 8 n) + c.enabling

variable {c c' : Controller}

theorem commandWeight_of_none {slotId : BitVec 8} (h : c.devices slotId = none) :
    c.commandWeight slotId = 0 := by
  unfold commandWeight
  rw [h]

theorem commandWeight_of_some {slotId : BitVec 8} {d : Device} (h : c.devices slotId = some d) :
    c.commandWeight slotId = (c.portConfigPhase d.port).commands := by
  unfold commandWeight
  rw [h]

theorem commandWeight_le (c : Controller) (slotId : BitVec 8) : c.commandWeight slotId ≤ 3 := by
  unfold commandWeight
  split
  · decide
  · unfold ConfigPhase.commands
    split
    · decide
    · decide
    · decide

theorem commandBudget_le (c : Controller) : c.commandBudget ≤ 25 := by
  have hsum : ∑ n ∈ Finset.Icc 1 8, c.commandWeight (BitVec.ofNat 8 n) ≤
      (Finset.Icc 1 8).card • 3 :=
    Finset.sum_le_card_nsmul _ _ _ fun n _ => c.commandWeight_le _
  have hcard : (Finset.Icc 1 8).card • 3 = 24 := rfl
  have henabling : c.enabling ≤ 1 := by
    unfold enabling
    split
    · decide
    · decide
  unfold commandBudget
  omega

theorem sum_commandWeight_mono (h : ∀ slotId, c.commandWeight slotId ≤ c'.commandWeight slotId) :
    ∑ n ∈ Finset.Icc 1 8, c.commandWeight (BitVec.ofNat 8 n) ≤
      ∑ n ∈ Finset.Icc 1 8, c'.commandWeight (BitVec.ofNat 8 n) :=
  Finset.sum_le_sum fun _ _ => h _

/-- A slot with more commands than before. -/
theorem sum_commandWeight_add {slotId : BitVec 8} {k : ℕ} (hlow : 1#8 ≤ slotId)
    (hhigh : slotId ≤ kDeviceSize)
    (h : ∀ slotId', c.commandWeight slotId' ≤ c'.commandWeight slotId')
    (hslot : c.commandWeight slotId + k ≤ c'.commandWeight slotId) :
    ∑ n ∈ Finset.Icc 1 8, c.commandWeight (BitVec.ofNat 8 n) + k ≤
      ∑ n ∈ Finset.Icc 1 8, c'.commandWeight (BitVec.ofNat 8 n) := by
  have hmem : slotId.toNat ∈ Finset.Icc 1 8 := Finset.mem_Icc.mpr ⟨hlow, hhigh⟩
  have hof : BitVec.ofNat 8 slotId.toNat = slotId := by
    rw [BitVec.ofNat_toNat, BitVec.setWidth_eq]
  rw [← Finset.add_sum_erase _ _ hmem, ← Finset.add_sum_erase _ _ hmem, hof]
  have hrest : ∑ n ∈ (Finset.Icc 1 8).erase slotId.toNat, c.commandWeight (BitVec.ofNat 8 n) ≤
      ∑ n ∈ (Finset.Icc 1 8).erase slotId.toNat, c'.commandWeight (BitVec.ofNat 8 n) :=
    Finset.sum_le_sum fun _ _ => h _
  omega

end Controller

/-! ## The invariant -/

namespace UsbState

/-- The rings of the device in a slot: once it is initialized the first eight TRBs of the default
pipe are done with, and only the last transfer of another endpoint is not. -/
structure DeviceInvariant (s : UsbState) (slotId : BitVec 8) (d : Device) : Prop where
  formed : d.RingsFormed
  stage : d.StageAt (s.driver.portConfigPhase d.port)
  control : d.isInitialized = true → ∀ j, s.Live (.transfer slotId 0) j → 8 ≤ j
  interrupt : ∀ i, i ≠ 0 → ∀ j, s.Live (.transfer slotId i) j → (d.pushedTo i).length ≤ j + 1

/-- An event that is not handled. -/
structure EventInvariant (s : UsbState) (e : PostedEvent) : Prop where
  port : e.issuer = none → e.trb.trbType = PortStatusChangeEventTRB.type ∧
    1#8 ≤ PortStatusChangeEventTRB.portId e.trb ∧
    PortStatusChangeEventTRB.portId e.trb ≤ s.driver.maxPorts
  completion : ∀ ρ j, e.issuer = some (ρ, j) → j < s.consumed ρ ∧
    ∃ r, s.driver.ring ρ = some r ∧ j < r.pushed.length ∧ Reports e.trb ρ r j
  enabled : ∀ j issuer, e.issuer = some (.command, j) →
    s.driver.commandRing.pushed[j]? = some issuer → issuer.trbType = EnableSlotCommandTRB.type →
    e.newSlot = some (CommandCompletionEventTRB.slotId e.trb)

end UsbState

/-- Events about one ring are in the order of their TRBs. -/
def PostedEvent.Before (e e' : PostedEvent) : Prop :=
  ∀ ρ j j', e.issuer = some (ρ, j) → e'.issuer = some (ρ, j') → j < j'

/-- Events assign different slots. -/
def PostedEvent.OtherSlot (e e' : PostedEvent) : Prop :=
  ∀ slotId, e.newSlot = some slotId → e'.newSlot ≠ some slotId

structure UsbInvariant (s : UsbState) : Prop where
  ports : PortInvariant s.driver.portState
  commandRing : s.driver.commandRing.WellFormed
  commands : s.driver.commandRing.pushed.length ≤ s.driver.commandBudget
  device : ∀ slotId d, s.driver.devices slotId = some d → s.DeviceInvariant slotId d
  distinct : ∀ slotId slotId' d d', s.driver.devices slotId = some d →
    s.driver.devices slotId' = some d' → d.port = d'.port → slotId = slotId'
  consumed : ∀ ρ, s.consumed ρ ≤ (s.driver.pushedTo ρ).length
  event : ∀ e ∈ s.events, s.EventInvariant e
  sorted : s.events.Pairwise PostedEvent.Before
  assigned : ∀ slotId ∈ s.assigned, 1#8 ≤ slotId ∧ slotId ≤ Controller.kDeviceSize
  used : ∀ slotId d, s.driver.devices slotId = some d → slotId ∈ s.assigned
  newSlots : s.events.Pairwise PostedEvent.OtherSlot
  unused : ∀ e ∈ s.events, ∀ slotId, e.newSlot = some slotId →
    slotId ∈ s.assigned ∧ s.driver.devices slotId = none

namespace UsbState

variable {s t : UsbState} {slotId : BitVec 8} {d d' : Device} {e : PostedEvent}

theorem DeviceInvariant.mono (h : s.DeviceInvariant slotId d)
    (hlive : ∀ ρ j, t.Live ρ j → s.Live ρ j)
    (hphase : t.driver.portConfigPhase d.port = s.driver.portConfigPhase d.port) :
    t.DeviceInvariant slotId d where
  formed := h.formed
  stage := by rw [hphase]; exact h.stage
  control := fun hinit j hj => h.control hinit j (hlive _ j hj)
  interrupt := fun i hi j hj => h.interrupt i hi j (hlive _ j hj)

/-- The live TRBs are among the last of their ring. -/
theorem DeviceInvariant.length_le_of_live (h : s.DeviceInvariant slotId d) {i j : ℕ}
    (hlive : s.Live (.transfer slotId i) j) : (d.pushedTo i).length ≤ j + 30 := by
  by_cases hi : i = 0
  · subst hi
    have hrunning : ∀ w, d.Running w → (d.pushedTo 0).length ≤ j + 30 := by
      intro w hrun
      have hdone := h.control hrun.isInitialized j hlive
      have hlength := hrun.control
      omega
    have hstage := h.stage
    unfold Device.StageAt at hstage
    split at hstage
    · rw [hstage.pushed 0]
      exact Nat.zero_le _
    · rcases hstage with hstart | ⟨w, hprepared⟩
      · have hlength := hstart.length_le
        omega
      · exact hrunning w hprepared.toRunning
    · obtain ⟨w, hprepared⟩ := hstage
      exact hrunning w hprepared.toRunning
    · obtain ⟨w, hrun⟩ := hstage
      exact hrunning w hrun
    · exact hstage.elim
  · have hlast := h.interrupt i hi j hlive
    omega

theorem reports_congr {trb : TRB} {ρ : RingId} {r r' : LoggedRing} {j : ℕ}
    (h : Reports trb ρ r j) (hbase : r'.base = r.base) : Reports trb ρ r' j := by
  unfold Reports at h ⊢
  rw [hbase]
  exact h

/-- The rings that are in use stay where they are, with all that was pushed to them. -/
def Extends (s t : UsbState) : Prop :=
  ∀ ρ r, s.driver.ring ρ = some r → r.pushed ≠ [] →
    ∃ r', t.driver.ring ρ = some r' ∧ r'.base = r.base ∧ r.pushed <+: r'.pushed

theorem EventInvariant.mono (h : s.EventInvariant e) (hextend : s.Extends t)
    (hconsumed : ∀ ρ, s.consumed ρ ≤ t.consumed ρ) (hmax : t.driver.maxPorts = s.driver.maxPorts) :
    t.EventInvariant e := by
  refine ⟨by rw [hmax]; exact h.port, fun ρ j hissuer => ?_, fun j issuer hissuer hat => ?_⟩
  · obtain ⟨hj, r, hr, hlt, hreports⟩ := h.completion ρ j hissuer
    obtain ⟨r', hr', hbase, hprefix⟩ := hextend ρ r hr (List.ne_nil_of_length_pos (by omega))
    exact ⟨Nat.lt_of_lt_of_le hj (hconsumed ρ), r', hr',
      Nat.lt_of_lt_of_le hlt hprefix.length_le, reports_congr hreports hbase⟩
  · obtain ⟨-, r, hr, hlt, -⟩ := h.completion _ j hissuer
    obtain rfl := Option.some.inj hr
    obtain ⟨r', hr', -, hprefix⟩ := hextend _ _ hr (List.ne_nil_of_length_pos (by omega))
    obtain rfl := Option.some.inj hr'
    -- the command is still the one with this number
    rw [List.getElem?_eq_getElem (Nat.lt_of_lt_of_le hlt hprefix.length_le),
      ← hprefix.getElem hlt, ← List.getElem?_eq_getElem] at hat
    exact h.enabled j issuer hissuer hat

end UsbState

/-! ## Steps of the controller -/

section ControllerSteps

variable {s : UsbState} {ρ : RingId} {e : PostedEvent}

theorem le_update_consumed (s : UsbState) (ρ ρ' : RingId) :
    s.consumed ρ' ≤ Function.update s.consumed ρ (s.consumed ρ + 1) ρ' := by
  rw [Function.update_apply]
  split
  · next heq =>
    rw [heq]
    exact Nat.le_succ _
  · exact Nat.le_refl _

theorem UsbInvariant.update_consumed_le (h : UsbInvariant s)
    (hlt : s.consumed ρ < (s.driver.pushedTo ρ).length) (ρ' : RingId) :
    Function.update s.consumed ρ (s.consumed ρ + 1) ρ' ≤ (s.driver.pushedTo ρ').length := by
  rw [Function.update_apply]
  split
  · next heq =>
    rw [heq]
    exact hlt
  · exact h.consumed ρ'

theorem UsbInvariant.consume (h : UsbInvariant s)
    (hlt : s.consumed ρ < (s.driver.pushedTo ρ).length) :
    UsbInvariant { s with consumed := Function.update s.consumed ρ (s.consumed ρ + 1) } :=
  { h with
    device := fun slotId d hd => (h.device slotId d hd).mono
      (fun _ _ hj => UsbState.live_of_step (.consume hlt) hj) rfl
    consumed := h.update_consumed_le hlt
    event := fun e he => (h.event e he).mono (fun _ r hr _ => ⟨r, hr, rfl, List.prefix_rfl⟩)
      (le_update_consumed s ρ) rfl }

/-- An event is posted behind the others. -/
theorem UsbInvariant.post {consumed : RingId → ℕ} {assigned : List (BitVec 8)}
    (h : UsbInvariant s)
    (hlive : ∀ ρ j, UsbState.Live ⟨s.driver, consumed, s.events ++ [e], assigned⟩ ρ j → s.Live ρ j)
    (hle : ∀ ρ, s.consumed ρ ≤ consumed ρ)
    (hbound : ∀ ρ, consumed ρ ≤ (s.driver.pushedTo ρ).length)
    (hevent : UsbState.EventInvariant ⟨s.driver, consumed, s.events ++ [e], assigned⟩ e)
    (hbefore : ∀ e' ∈ s.events, e'.Before e)
    (hassigned : ∀ slotId ∈ assigned, 1#8 ≤ slotId ∧ slotId ≤ Controller.kDeviceSize)
    (hold : ∀ slotId ∈ s.assigned, slotId ∈ assigned)
    (hnew : ∀ slotId, e.newSlot = some slotId → slotId ∈ assigned ∧ slotId ∉ s.assigned) :
    UsbInvariant ⟨s.driver, consumed, s.events ++ [e], assigned⟩ where
  ports := h.ports
  commandRing := h.commandRing
  commands := h.commands
  device := fun slotId d hd => (h.device slotId d hd).mono hlive rfl
  distinct := h.distinct
  consumed := hbound
  event := by
    intro e' he'
    -- what the old events were about is still there
    rcases List.mem_append.mp he' with hmem | hlast
    · exact (h.event e' hmem).mono (fun _ r hr _ => ⟨r, hr, rfl, List.prefix_rfl⟩) hle rfl
    · rw [List.mem_singleton.mp hlast]
      exact hevent
  sorted := by
    refine List.pairwise_append.mpr ⟨h.sorted, List.pairwise_singleton _ _, ?_⟩
    intro e' he' e'' he''
    rw [List.mem_singleton.mp he'']
    exact hbefore e' he'
  assigned := hassigned
  used := fun slotId d hd => hold slotId (h.used slotId d hd)
  newSlots := by
    refine List.pairwise_append.mpr ⟨h.newSlots, List.pairwise_singleton _ _, ?_⟩
    intro e' he' e'' he'' slotId hslot hslot'
    rw [List.mem_singleton.mp he''] at hslot'
    exact (hnew slotId hslot').2 (h.unused e' he' slotId hslot).1
  unused := by
    -- a slot that is newly assigned has no device
    intro e' he' slotId hslot
    rcases List.mem_append.mp he' with hmem | hlast
    · obtain ⟨hin, hnone⟩ := h.unused e' hmem slotId hslot
      exact ⟨hold slotId hin, hnone⟩
    · rw [List.mem_singleton.mp hlast] at hslot
      obtain ⟨hin, hfresh⟩ := hnew slotId hslot
      refine ⟨hin, ?_⟩
      by_contra hsome
      obtain ⟨d, hd⟩ := Option.ne_none_iff_exists'.mp hsome
      exact hfresh (h.used slotId d hd)

/-- An event about the TRB that is consumed with it is behind all others about its ring. -/
theorem UsbInvariant.before_next (h : UsbInvariant s)
    (hissuer : e.issuer = some (ρ, s.consumed ρ)) : ∀ e' ∈ s.events, e'.Before e := by
  intro e' he' ρ' j j' hj hj'
  rw [hissuer, Option.some.injEq, Prod.mk.injEq] at hj'
  obtain ⟨rfl, rfl⟩ := hj'
  exact ((h.event e' he').completion ρ j hj).1

theorem pushedTo_of_ring {c : Controller} {r : LoggedRing} (h : c.ring ρ = some r) :
    c.pushedTo ρ = r.pushed := by
  unfold Controller.pushedTo
  rw [h]

/-- The next TRB of a ring is consumed, and an event about it is posted. -/
theorem UsbInvariant.complete {r : LoggedRing} {trb : TRB} {newSlot : Option (BitVec 8)}
    {assigned : List (BitVec 8)} (h : UsbInvariant s) (hring : s.driver.ring ρ = some r)
    (hlt : s.consumed ρ < r.pushed.length) (hreports : Reports trb ρ r (s.consumed ρ))
    (henabled : ∀ issuer, ρ = .command → r.pushed[s.consumed ρ]? = some issuer →
      issuer.trbType = EnableSlotCommandTRB.type →
      newSlot = some (CommandCompletionEventTRB.slotId trb))
    (hlive : ∀ ρ' j, UsbState.Live ⟨s.driver, Function.update s.consumed ρ (s.consumed ρ + 1),
      s.events ++ [⟨trb, some (ρ, s.consumed ρ), newSlot⟩], assigned⟩ ρ' j → s.Live ρ' j)
    (hassigned : ∀ slotId ∈ assigned, 1#8 ≤ slotId ∧ slotId ≤ Controller.kDeviceSize)
    (hold : ∀ slotId ∈ s.assigned, slotId ∈ assigned)
    (hnew : ∀ slotId, newSlot = some slotId → slotId ∈ assigned ∧ slotId ∉ s.assigned) :
    UsbInvariant ⟨s.driver, Function.update s.consumed ρ (s.consumed ρ + 1),
      s.events ++ [⟨trb, some (ρ, s.consumed ρ), newSlot⟩], assigned⟩ := by
  have hpushed : s.consumed ρ < (s.driver.pushedTo ρ).length := by
    rw [pushedTo_of_ring hring]
    exact hlt
  -- the TRB counts as consumed when its event is posted
  refine h.post hlive (le_update_consumed s ρ) (h.update_consumed_le hpushed) ?_
    (h.before_next rfl) hassigned hold hnew
  refine ⟨fun hnone => absurd hnone (by simp), fun ρ' j heq => ?_,
    fun j issuer heq hat htype => ?_⟩
  · simp only [Option.some.injEq, Prod.mk.injEq] at heq
    obtain ⟨rfl, rfl⟩ := heq
    refine ⟨?_, r, hring, hlt, hreports⟩
    show _ < Function.update s.consumed ρ _ ρ
    rw [Function.update_self]
    exact Nat.lt_succ_self _
  · simp only [Option.some.injEq, Prod.mk.injEq] at heq
    obtain ⟨rfl, rfl⟩ := heq
    obtain rfl := Option.some.inj hring
    exact henabled issuer rfl hat htype

end ControllerSteps

end TommyOS.Usb
