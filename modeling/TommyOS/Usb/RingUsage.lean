import TommyOS.Usb.TransferHandlers

/-!
# No ring is overrun

Every step of the driver and the controller keeps the invariant, so that in all their runs what
the driver pushes does not come round to a TRB that is still needed.
-/

namespace TommyOS.Usb

open Controller

/-! ## Events -/

section Events

variable {s t : UsbState} {c : Controller} {e : PostedEvent} {events : List PostedEvent}
  {m : Machine} {err : Error} {j : ℕ}

/-- The command of a completion is found by its pointer. -/
theorem UsbInvariant.trbAt_command (hinv : UsbInvariant s) (henv : Environment m s.driver e.trb)
    (he : e ∈ s.events) (hissuer : e.issuer = some (.command, j)) :
    ∃ issuer, s.driver.commandRing.pushed[j]? = some issuer ∧
      (m.trbAt e.trb.pointer).trbType = issuer.trbType := by
  obtain ⟨-, r, hr, hj, -, hpointer⟩ := (hinv.event e he).completion _ j hissuer
  obtain rfl := Option.some.inj hr
  have hlength := hinv.commands.trans s.driver.commandBudget_le
  obtain ⟨cycle, hslot⟩ := hinv.commandRing.recent j hj (by omega)
  refine ⟨_, List.getElem?_eq_getElem hj, ?_⟩
  rw [hpointer, henv.memory .command _ rfl _ (Nat.mod_lt j (by decide)), hslot, TRB.trbType_stamped]

theorem onCommandCompletion_driverStep (hinv : UsbInvariant s)
    (henv : Environment m s.driver e.trb) (hevents : s.events = e :: events)
    (hissuer : e.issuer = some (.command, j))
    (h : s.driver.onCommandCompletion m e.trb = some (err, c)) : DriverStep s c events := by
  have he : e ∈ s.events := by
    rw [hevents]
    exact List.mem_cons_self
  obtain ⟨issuer, hat, htype⟩ := hinv.trbAt_command henv he hissuer
  rcases onCommandCompletion_cases h with rfl | ⟨henable, hphase, haddress⟩ |
    ⟨-, d, hfind, haddressed⟩ | ⟨-, d, hfind, hphase, hcomplete⟩
  · exact driverStep_refl hinv
  · -- the slot is new
    have hslot := (hinv.event e he).enabled j issuer hissuer hat (htype.symm.trans henable)
    obtain ⟨hassigned, hnone⟩ := hinv.unused e he _ hslot
    have hothers := hinv.newSlots
    rw [hevents] at hothers
    exact addressDevice_driverStep hinv henv.newDevice hphase hnone hassigned
      (fun e' he' => (List.pairwise_cons.mp hothers).1 e' he' _ hslot) haddress
  · have hd := (findBySlot_eq_some.mp hfind).2
    exact onAddressDeviceCompleted_driverStep hinv hd
      (fun hphase => hinv.device_of_rootHubPort henv hd (by rw [hphase]; decide)) haddressed
  · have hd := (findBySlot_eq_some.mp hfind).2
    exact completeConfiguration_driverStep hinv hd
      (hinv.device_of_rootHubPort henv hd (by rw [hphase]; decide)) hphase
      (by rw [hevents]; exact List.suffix_cons e events) hcomplete

theorem onPortStatusChange_driverStep {trb : TRB} (hinv : UsbInvariant s)
    (h : s.driver.onPortStatusChange m trb = some (err, c)) : DriverStep s c events := by
  unfold onPortStatusChange at h
  simp only at h
  split at h
  · next hphase =>
    rw [show c = _ from (congrArg Prod.snd (Option.some.inj h)).symm]
    exact resetPort_driverStep hinv hphase
  · next hphase => exact enableSlot_driverStep hinv hphase h
  · rw [show c = _ from (congrArg Prod.snd (Option.some.inj h)).symm]
    exact driverStep_refl hinv

/-- What kind of event it is tells what it is about. -/
theorem UsbInvariant.trbType_cases (hinv : UsbInvariant s) (he : e ∈ s.events) :
    (e.trb.trbType = PortStatusChangeEventTRB.type ∧
      1#8 ≤ PortStatusChangeEventTRB.portId e.trb ∧
      PortStatusChangeEventTRB.portId e.trb ≤ s.driver.maxPorts) ∨
    (e.trb.trbType = CommandCompletionEventTRB.type ∧ ∃ j, e.issuer = some (.command, j)) ∨
    (e.trb.trbType = TransferEventTRB.type ∧
      ∃ i j, e.issuer = some (.transfer (TransferEventTRB.slotId e.trb) i, j)) := by
  cases hissuer : e.issuer with
  | none => exact .inl ((hinv.event e he).port hissuer)
  | some issuer =>
    obtain ⟨ρ, j⟩ := issuer
    obtain ⟨-, r, -, -, hreports⟩ := (hinv.event e he).completion ρ j hissuer
    cases ρ with
    | command => exact .inr (.inl ⟨hreports.1, j, rfl⟩)
    | transfer slotId i =>
      obtain ⟨htype, hslot, -⟩ := hreports
      exact .inr (.inr ⟨htype, i, j, by rw [hslot]⟩)

theorem onEvent_driverStep (hinv : UsbInvariant s) (henv : Environment m s.driver e.trb)
    (hevents : s.events = e :: events) (h : s.driver.onEvent m e.trb = some (err, c)) :
    DriverStep s c events := by
  unfold onEvent at h
  rcases hinv.trbType_cases (e := e) (by rw [hevents]; exact List.mem_cons_self) with ⟨htype, -⟩ |
    ⟨htype, j, hissuer⟩ | ⟨htype, i, j, hissuer⟩
  · rw [htype, if_neg (by decide), if_pos rfl] at h
    exact onPortStatusChange_driverStep hinv h
  · rw [htype, if_neg (by decide), if_neg (by decide), if_pos rfl] at h
    exact onCommandCompletion_driverStep hinv henv hevents hissuer h
  · rw [htype, if_pos rfl] at h
    exact onTransfer_driverStep hinv henv hevents hissuer h

theorem configurePort_driverStep {port : BitVec 8} (hinv : UsbInvariant s) :
    DriverStep s (s.driver.configurePort m port).2 events := by
  unfold configurePort
  split
  · next hphase => exact resetPort_driverStep hinv hphase
  · exact driverStep_refl hinv

end Events

/-! ## Runs -/

section Runs

variable {s t : UsbState} {maxPorts : BitVec 8} {commandRing : BitVec 64}
  {scratchpad : Option (BitVec 64)}

theorem UsbInvariant.ports_of_step {c : Controller} (hinv : UsbInvariant s)
    (h : ControllerStep s.driver c) : PortInvariant c.portState := by
  rcases portStep_of_step h with hsame | hstep
  · rw [hsame]
    exact hinv.ports
  · exact PortState.invariant_of_step hinv.ports hstep

/-- A call of the driver is one of its steps, and the controller leaves the driver as it is. -/
theorem usbStep_cases (hinv : UsbInvariant s) (h : UsbStep s t) :
    (DriverStep s t.driver t.events ∧ PortInvariant t.driver.portState ∧ t.events <:+ s.events ∧
      t = s.after t.driver t.events) ∨ (t.driver = s.driver ∧ UsbInvariant t) := by
  have hlive : ∀ ρ j, t.Live ρ j → s.Live ρ j := fun _ _ => UsbState.live_of_step h
  cases h with
  | configurePort m port hlow hhigh =>
    exact .inl ⟨configurePort_driverStep hinv,
      hinv.ports_of_step (.configurePort m port hlow hhigh), List.suffix_rfl, rfl⟩
  | @processEvent m e events err c hevents henv hevent =>
    have hstep : ControllerStep s.driver c := by
      refine .processEvent m (fun htype => ?_) hevent
      have he : e ∈ s.events := by
        rw [hevents]
        exact List.mem_cons_self
      rcases hinv.trbType_cases he with ⟨-, hport⟩ | ⟨hother, -⟩ | ⟨hother, -⟩
      · exact hport
      · exact absurd (hother.symm.trans htype) (by decide)
      · exact absurd (hother.symm.trans htype) (by decide)
    refine .inl ⟨onEvent_driverStep hinv henv hevents hevent, hinv.ports_of_step hstep, ?_, rfl⟩
    rw [hevents]
    exact List.suffix_cons e events
  | portStatusChange trb htype hlow hhigh =>
    refine .inr ⟨rfl, hinv.post hlive (fun _ => Nat.le_refl _) hinv.consumed ?_ ?_ hinv.assigned
      (fun _ hmem => hmem) (fun _ hslot => absurd hslot (by simp))⟩
    · exact ⟨fun _ => ⟨htype, hlow, hhigh⟩, fun _ _ hissuer => absurd hissuer (by simp),
        fun _ _ hissuer => absurd hissuer (by simp)⟩
    · exact fun _ _ _ _ _ _ hissuer => absurd hissuer (by simp)
  | consume hlt => exact .inr ⟨rfl, hinv.consume hlt⟩
  | @complete ρ r issuer trb hring hissuer hother hreports =>
    obtain ⟨hlt, -⟩ := List.getElem?_eq_some_iff.mp hissuer
    refine .inr ⟨rfl, hinv.complete hring hlt hreports (fun issuer' _ hat htype => ?_) hlive
      hinv.assigned (fun _ hmem => hmem) (fun _ hslot => absurd hslot (by simp))⟩
    -- only another constructor completes an Enable Slot command
    obtain rfl := Option.some.inj (hissuer.symm.trans hat)
    exact absurd htype hother
  | enableSlot issuer trb hissuer henable hreports hlow hhigh hfresh =>
    obtain ⟨hlt, -⟩ := List.getElem?_eq_some_iff.mp hissuer
    refine .inr ⟨rfl, hinv.complete rfl hlt hreports (fun _ _ _ _ => rfl) hlive ?_
      (fun _ hmem => List.mem_cons_of_mem _ hmem) ?_⟩
    · intro slotId hslot
      rcases List.mem_cons.mp hslot with rfl | hold
      · exact ⟨hlow, hhigh⟩
      · exact hinv.assigned slotId hold
    · intro slotId hslot
      obtain rfl := Option.some.inj hslot
      exact ⟨List.mem_cons_self, hfresh⟩

theorem usbInvariant_init :
    UsbInvariant ⟨.initializeWith maxPorts commandRing scratchpad, fun _ => 0, [], []⟩ where
  ports := ⟨rfl, fun _ => ⟨fun hfalse => Bool.noConfusion hfalse, fun hzero =>
    absurd hzero.1 hzero.2⟩⟩
  commandRing := LoggedRing.wellFormed_initializeWith commandRing
  commands := Nat.zero_le _
  device := fun _ _ hd => absurd hd (by simp [initializeWith])
  distinct := fun _ _ _ _ hd => absurd hd (by simp [initializeWith])
  consumed := fun _ => Nat.zero_le _
  event := fun _ he => absurd he List.not_mem_nil
  sorted := .nil
  assigned := fun _ hslot => absurd hslot List.not_mem_nil
  used := fun _ _ hd => absurd hd (by simp [initializeWith])
  newSlots := .nil
  unused := fun _ he => absurd he List.not_mem_nil

theorem usbInvariant_of_reachable
    (h : (usbSystem maxPorts commandRing scratchpad).Reachable s) : UsbInvariant s := by
  refine h.invariant (P := UsbInvariant) (fun s hs => ?_) fun s t _ hinv hstep => ?_
  · rw [show s = _ from hs]
    exact usbInvariant_init
  · rcases usbStep_cases hinv hstep with ⟨hdriver, hports, hevents, ht⟩ | ⟨-, hinv'⟩
    · rw [ht]
      exact hdriver.invariant hinv hports hevents
    · exact hinv'

/-- The last lap of a ring holds all its live TRBs. -/
theorem UsbInvariant.wellFormed_of_ring (hinv : UsbInvariant s) {ρ : RingId} {r : LoggedRing}
    (hr : s.driver.ring ρ = some r) :
    r.WellFormed ∧ ∀ j, s.Live ρ j → r.pushed.length ≤ j + 31 := by
  cases ρ with
  | command =>
    obtain rfl := Option.some.inj hr
    have hlength := hinv.commands.trans s.driver.commandBudget_le
    exact ⟨hinv.commandRing, fun j _ => by omega⟩
  | transfer slotId i =>
    obtain ⟨d, hd, hring⟩ := ring_transfer.mp hr
    have hdevice := hinv.device slotId d hd
    refine ⟨hdevice.formed.wellFormed i r hring, fun j hlive => ?_⟩
    have hlength := hdevice.length_le_of_live hlive
    rw [Device.pushedTo_of_eq hring] at hlength
    exact hlength.trans (Nat.le_succ _)

theorem prefix_of_extends (h : s.Extends t) (ρ : RingId) :
    s.driver.pushedTo ρ <+: t.driver.pushedTo ρ := by
  cases hr : s.driver.ring ρ with
  | none =>
    unfold Controller.pushedTo
    rw [hr]
    exact List.nil_prefix
  | some r =>
    rw [pushedTo_of_ring hr]
    by_cases hused : r.pushed = []
    · rw [hused]
      exact List.nil_prefix
    · obtain ⟨r', hr', -, hprefix⟩ := h ρ r hr hused
      rw [pushedTo_of_ring hr']
      exact hprefix

/-- In every state of every run each ring has 32 slots, the next TRB goes to the slot behind the
last one, and every TRB that is not consumed or whose event is not handled is still in its slot.
What a step pushes then goes to slots of other TRBs than these, and stays within the room that a
ring has between its producer and its consumer. -/
theorem rings_not_overrun (h : (usbSystem maxPorts commandRing scratchpad).Reachable s) :
    (∀ ρ r, s.driver.ring ρ = some r → r.bufSize = 32 ∧ r.writeIndex = r.pushed.length % 31 ∧
      ∀ j (hj : j < r.pushed.length), s.Live ρ j →
        ∃ cycle, r.buf (j % 31) = r.pushed[j].stamped cycle) ∧
    ∀ t, UsbStep s t → ∀ ρ, s.driver.pushedTo ρ <+: t.driver.pushedTo ρ ∧
      ∀ k, (s.driver.pushedTo ρ).length ≤ k → k < (t.driver.pushedTo ρ).length →
        k - s.consumed ρ < 30 ∧ ∀ j, j < k → j % 31 = k % 31 → ¬ s.Live ρ j := by
  have hinv := usbInvariant_of_reachable h
  refine ⟨fun ρ r hr => ?_, fun t hstep ρ => ?_⟩
  · obtain ⟨hwf, hlive⟩ := hinv.wellFormed_of_ring hr
    exact ⟨hwf.bufSize, hwf.writeIndex, fun j hj hj' => hwf.recent j hj (hlive j hj')⟩
  · rcases usbStep_cases hinv hstep with ⟨hdriver, -, -, ht⟩ | ⟨hsame, -⟩
    · refine ⟨?_, fun k hold hnew => ?_⟩
      · rw [ht]
        exact prefix_of_extends (hdriver.extends_after hinv) ρ
      · have hsafe := hdriver.safe hold hnew
        have hroom := hsafe (s.consumed ρ) (.inl (Nat.le_refl _))
        refine ⟨by omega, fun j hj hslot hlive => ?_⟩
        -- two TRBs of one slot are a lap apart
        have hlap := hsafe j hlive
        exact CycleRing.mod_ne_of_lt hj (by omega) hslot
    · rw [hsame]
      exact ⟨List.prefix_rfl, fun k hold hnew => absurd hnew (Nat.not_lt.mpr hold)⟩

end Runs

/-! One device is plugged in, and its slot is enabled. -/

theorem configurePort_same (m : Machine) (c : Controller) (port : BitVec 8) :
    (c.configurePort m port).2.commandRing = c.commandRing ∧
      (c.configurePort m port).2.devices = c.devices ∧
      (c.configurePort m port).2.maxPorts = c.maxPorts := by
  unfold configurePort
  split
  · rcases resetPort_cases m c port with ⟨-, heq⟩ | ⟨-, -, heq⟩ | ⟨-, -, -, -, heq⟩ |
      ⟨-, -, -, heq⟩
    all_goals
      rw [heq]
      exact ⟨rfl, rfl, rfl⟩
  · exact ⟨rfl, rfl, rfl⟩

/-- The driver after the reset of the port. -/
def slotRequested : Option Controller := do
  let m := exampleMachine (pluggedPorts [1#8]) 0
  let c := ((Controller.initializeWith 4#8 0x1000#64 none).configurePort m 1#8).2
  let (_, c) ← c.onEvent m (portStatusChangeEvent 1#8)
  some c

theorem slotRequested_reachable {c : Controller} (h : slotRequested = some c) :
    (usbSystem 4#8 0x1000#64 none).Reachable ⟨c, fun _ => 0, [], []⟩ := by
  unfold slotRequested at h
  simp only [Option.bind_eq_bind, Option.bind_eq_some_iff] at h
  obtain ⟨⟨err, c'⟩, hevent, h⟩ := h
  obtain rfl := Option.some.inj h
  obtain ⟨hring, hdevices, hmax⟩ := configurePort_same (exampleMachine (pluggedPorts [1#8]) 0)
    (Controller.initializeWith 4#8 0x1000#64 none) 1#8
  -- the port is configured, the controller posts its reset, and the driver handles that
  have hstart : (usbSystem 4#8 0x1000#64 none).Reachable
      ⟨.initializeWith 4#8 0x1000#64 none, fun _ => 0, [], []⟩ := .start rfl
  have hport := hstart.next (.configurePort (exampleMachine (pluggedPorts [1#8]) 0) 1#8
    (by decide) (by decide))
  have hposted := hport.next (.portStatusChange (portStatusChangeEvent 1#8) (by decide)
    (by decide) (by rw [hmax]; decide))
  refine hposted.next (.processEvent rfl ?_ hevent)
  refine ⟨fun ρ r hr n _ => ?_, fun slotId d hd => ?_, fun addresses hnew => ?_, fun htype => ?_⟩
  · cases ρ with
    | command =>
      rw [← Option.some.inj hr, hring]
      rfl
    | transfer slotId i =>
      obtain ⟨d, hd, -⟩ := ring_transfer.mp hr
      rw [hdevices] at hd
      exact absurd hd (by simp [initializeWith])
  · rw [hdevices] at hd
    exact absurd hd (by simp [initializeWith])
  · rw [← Option.some.inj hnew]
    decide
  · exact absurd htype (by decide)

def enableSlotCompletion : TRB :=
  ![0x1000#32, 0#32, 0#32, 1#8 ++ 0#8 ++ CommandCompletionEventTRB.type ++ 0#10]

def addressCompletion : TRB :=
  ![0x1010#32, 0#32, 0#32, 1#8 ++ 0#8 ++ CommandCompletionEventTRB.type ++ 0#10]

/-- The machine with the command ring and the default ring of the device in its memory. -/
def ringMachine (c : Controller) : Machine :=
  { exampleMachine (pluggedPorts [1#8]) 0 with
    trbAt := fun address =>
      let r := if address < 0x4000#64 then some c.commandRing else c.ring (.transfer 1#8 0)
      match r with
      | some r => r.buf ((address - r.base).toNat / sizeofTRB)
      | none => 0 }

/-- There is no ring but those two. -/
structure OneDevice (c : Controller) : Prop where
  base : c.commandRing.base = 0x1000#64
  slot : ∀ slotId d, c.devices slotId = some d → slotId = 1#8
  port : ∀ slotId d, c.devices slotId = some d →
    d.inputContext.slotContext.rootHubPortNum = 1#8
  ring : ∀ slotId d, c.devices slotId = some d → ∀ i r, d.transferRings i = some r →
    i = 0 ∧ r.base = 0x4000#64

theorem OneDevice.environment {c : Controller} (h : OneDevice c) {trb : TRB}
    (hissuer : ((ringMachine c).trbAt (TransferEventTRB.pointer trb)).trbType ≠
      DataStageTRB.type) : Environment (ringMachine c) c trb where
  memory ρ r hr n hn := by
    have hslot : ∀ r : LoggedRing,
        (Ring.slotAddress r.base n - r.base).toNat / sizeofTRB = n := fun r =>
      Ring.slotAddress_slot r.base (by unfold sizeofTRB; omega)
    cases ρ with
    | command =>
      obtain rfl := Option.some.inj hr
      have hlow : Ring.slotAddress c.commandRing.base n < 0x4000#64 := by
        rw [h.base, Ring.slotAddress, sizeofTRB]
        bv_omega
      simp only [ringMachine, if_pos hlow, hslot]
    | transfer slotId i =>
      obtain ⟨d, hd, hring⟩ := ring_transfer.mp hr
      obtain ⟨rfl, hbase⟩ := h.ring slotId d hd i r hring
      obtain rfl := h.slot slotId d hd
      have hhigh : ¬ Ring.slotAddress r.base n < 0x4000#64 := by
        rw [hbase, Ring.slotAddress, sizeofTRB]
        bv_omega
      simp only [ringMachine, if_neg hhigh, hr, hslot]
  rootHubPort slotId d hd := .inr (h.port slotId d hd).symm
  newDevice addresses hnew := by
    rw [← Option.some.inj hnew]
    decide
  answer hdata := absurd hdata hissuer

/-- The driver after the slot was enabled. -/
def slotEnabled : Option Controller := do
  let c ← slotRequested
  let (_, c) ← c.onEvent (ringMachine c) enableSlotCompletion
  some c

/-- The driver after the device has got its address, and was asked for its descriptor. -/
def descriptorRequested : Option Controller := do
  let c ← slotEnabled
  let (_, c) ← c.onEvent (ringMachine c) addressCompletion
  some c

theorem slotRequested_devices {c : Controller} (h : slotRequested = some c) :
    c.devices = fun _ => none := by
  unfold slotRequested at h
  simp only [Option.bind_eq_bind, Option.bind_eq_some_iff] at h
  obtain ⟨⟨err, c'⟩, hevent, h⟩ := h
  obtain rfl := Option.some.inj h
  obtain ⟨-, hdevices, -⟩ := configurePort_same (exampleMachine (pluggedPorts [1#8]) 0)
    (Controller.initializeWith 4#8 0x1000#64 none) 1#8
  have htype : (portStatusChangeEvent 1#8).trbType = PortStatusChangeEventTRB.type := by decide
  unfold onEvent onPortStatusChange at hevent
  rw [htype, if_neg (by decide), if_pos rfl] at hevent
  simp only at hevent
  split at hevent
  · rw [show c' = _ from (congrArg Prod.snd (Option.some.inj hevent)).symm, resetPort_devices,
      hdevices]
    rfl
  · rcases enableSlot_cases hevent with rfl | ⟨_, _, -, rfl⟩
    · exact hdevices
    · exact hdevices
  · rw [show c' = _ from (congrArg Prod.snd (Option.some.inj hevent)).symm, hdevices]
    rfl

theorem OneDevice.of_none {c : Controller} (hbase : c.commandRing.base = 0x1000#64)
    (hnone : ∀ slotId d, ¬ c.devices slotId = some d) : OneDevice c :=
  ⟨hbase, fun slotId d hd => absurd hd (hnone slotId d),
    fun slotId d hd => absurd hd (hnone slotId d), fun slotId d hd => absurd hd (hnone slotId d)⟩

/-- The addressed device has one ring, for its default endpoint. -/
theorem oneDevice_of_enableSlot {c₀ c : Controller} {err : Error}
    (hnone : ∀ slotId d, ¬ c₀.devices slotId = some d) (hport : c₀.addressingPort = 1#8)
    (hevent : c₀.onEvent (ringMachine c₀) enableSlotCompletion = some (err, c))
    (hbase : c.commandRing.base = 0x1000#64) : OneDevice c := by
  have htype : enableSlotCompletion.trbType = CommandCompletionEventTRB.type := by decide
  unfold onEvent at hevent
  rw [htype, if_neg (by decide), if_neg (by decide), if_pos rfl] at hevent
  -- there is no device that another command could be about
  have hsame : c = c₀ ∨ c₀.addressDevice (ringMachine c₀) 1#8 1#8 = some (err, c) := by
    rcases onCommandCompletion_cases hevent with rfl | ⟨-, -, haddress⟩ | ⟨-, d, hfind, -⟩ |
      ⟨-, d, hfind, -⟩
    · exact .inl rfl
    · rw [hport] at haddress
      exact .inr haddress
    · exact absurd (findBySlot_eq_some.mp hfind).2 (hnone _ d)
    · exact absurd (findBySlot_eq_some.mp hfind).2 (hnone _ d)
  have hold : c = c₀ → OneDevice c := by
    rintro rfl
    exact .of_none hbase hnone
  rcases hsame with hsame | haddress
  · exact hold hsame
  · rcases addressDevice_cases haddress with
      ⟨-, hsame⟩ | ⟨d, base, ctx, p, cr, -, hd, hnew, hctx, -, rfl⟩
    · exact hold hsame
    · obtain rfl : base = 0x4000#64 := (Option.some.inj hnew).symm
      have hnewDevice : d.transferRings = fun _ => none := by
        rcases hd with hd | ⟨-, addresses, -, rfl⟩
        · exact absurd hd (hnone _ d)
        · rfl
      have hslot : ∀ {addressed d' slotId},
          Function.update c₀.devices 1#8 (some addressed) slotId = some d' →
          slotId = 1#8 ∧ addressed = d' := by
        intro addressed d' slotId hd'
        by_cases hslot : slotId = 1#8
        · rw [hslot, Function.update_self] at hd'
          exact ⟨hslot, Option.some.inj hd'⟩
        · rw [Function.update_of_ne hslot] at hd'
          exact absurd hd' (hnone slotId d')
      refine ⟨hbase, fun slotId d' hd' => (hslot hd').1, fun slotId d' hd' => ?_,
        fun slotId d' hd' i r hr => ?_⟩
      · rw [← (hslot hd').2]
        exact rootHubPortNum_addressInputContext hctx
      · rw [← (hslot hd').2] at hr
        change Function.update d.transferRings 0 _ i = some r at hr
        rw [hnewDevice] at hr
        by_cases hi : i = 0
        · rw [hi, Function.update_self] at hr
          exact ⟨hi, by rw [← Option.some.inj hr]; rfl⟩
        · rw [Function.update_of_ne hi] at hr
          exact absurd hr.symm (Option.some_ne_none r)

theorem slotEnabled_reachable {c : Controller} (h : slotEnabled = some c)
    (hbase : c.commandRing.base = 0x1000#64) :
    OneDevice c ∧ (usbSystem 4#8 0x1000#64 none).Reachable
      ⟨c, Function.update (fun _ => 0) .command 1, [], [1#8]⟩ := by
  have hrun : slotRequested.map (fun c => (c.commandRing.base, c.commandRing.pushed,
      c.addressingPort, ((ringMachine c).trbAt 0x1000#64).trbType)) =
      some (0x1000#64, [EnableSlotCommandTRB.make], 1#8, EnableSlotCommandTRB.type) := by
    decide +kernel
  unfold slotEnabled at h
  simp only [Option.bind_eq_bind, Option.bind_eq_some_iff] at h
  obtain ⟨c₀, hc₀, ⟨err, c'⟩, hevent, h⟩ := h
  obtain rfl := Option.some.inj h
  rw [hc₀, Option.map_some, Option.some.injEq, Prod.mk.injEq, Prod.mk.injEq, Prod.mk.injEq] at hrun
  obtain ⟨hbase₀, hpushed, hport, hissuer⟩ := hrun
  have hnone : ∀ slotId d, ¬ c₀.devices slotId = some d := fun slotId d hd =>
    absurd (hd.symm.trans (congrFun (slotRequested_devices hc₀) slotId)) (Option.some_ne_none d)
  have hpointer : enableSlotCompletion.pointer = Ring.slotAddress c₀.commandRing.base 0 := by
    rw [hbase₀]
    decide
  have hposted := (slotRequested_reachable hc₀).next (.enableSlot EnableSlotCommandTRB.make
    enableSlotCompletion (by rw [hpushed]; rfl) (by decide) ⟨by decide, hpointer⟩ (by decide)
    (by decide) List.not_mem_nil)
  have henv : Environment (ringMachine c₀) c₀ enableSlotCompletion := by
    apply (OneDevice.of_none hbase₀ hnone).environment
    have haddress : TransferEventTRB.pointer enableSlotCompletion = 0x1000#64 := by decide
    rw [haddress, hissuer]
    decide
  exact ⟨oneDevice_of_enableSlot hnone hport hevent hbase,
    hposted.next (.processEvent rfl henv hevent)⟩

theorem descriptorRequested_reachable {c : Controller} (h : descriptorRequested = some c) :
    (usbSystem 4#8 0x1000#64 none).Reachable
      ⟨c, Function.update (Function.update (fun _ => 0) .command 1) .command 2, [], [1#8]⟩ := by
  have hrun : slotEnabled.map (fun c => (c.commandRing.base, c.commandRing.pushed.map TRB.trbType,
      ((ringMachine c).trbAt 0x1010#64).trbType)) =
      some (0x1000#64, [EnableSlotCommandTRB.type, AddressDeviceCommandTRB.type],
        AddressDeviceCommandTRB.type) := by decide +kernel
  unfold descriptorRequested at h
  simp only [Option.bind_eq_bind, Option.bind_eq_some_iff] at h
  obtain ⟨c₁, hc₁, ⟨err, c'⟩, hevent, h⟩ := h
  obtain rfl := Option.some.inj h
  rw [hc₁, Option.map_some, Option.some.injEq, Prod.mk.injEq, Prod.mk.injEq] at hrun
  obtain ⟨hbase, hpushed, htrb⟩ := hrun
  obtain ⟨hone, hreach⟩ := slotEnabled_reachable hc₁ hbase
  have hpointer : addressCompletion.pointer = Ring.slotAddress c₁.commandRing.base 1 := by
    rw [hbase]
    decide
  have hissuer : (c₁.commandRing.pushed[1]?).map TRB.trbType =
      some AddressDeviceCommandTRB.type := by
    rw [← List.getElem?_map, hpushed]
    rfl
  obtain ⟨issuer, hissuer, htype⟩ := Option.map_eq_some_iff.mp hissuer
  have hposted := hreach.next (.complete (ρ := .command) rfl hissuer
    (by rw [htype]; decide) ⟨by decide, hpointer⟩)
  have henv : Environment (ringMachine c₁) c₁ addressCompletion := by
    apply hone.environment
    have haddress : TransferEventTRB.pointer addressCompletion = 0x1010#64 := by decide
    rw [haddress, htrb]
    decide
  exact hposted.next (.processEvent rfl henv hevent)

/-- The device has its address, and none of the three TRBs of its first transfer is consumed. -/
theorem rings_not_overrun_descriptor :
    ∃ s, (usbSystem 4#8 0x1000#64 none).Reachable s ∧ s.consumed .command = 2 ∧
      (s.driver.pushedTo (.transfer 1#8 0)).length = 3 ∧ s.Live (.transfer 1#8 0) 0 ∧
      (∀ ρ r, s.driver.ring ρ = some r → r.bufSize = 32 ∧ r.writeIndex = r.pushed.length % 31 ∧
        ∀ j (hj : j < r.pushed.length), s.Live ρ j →
          ∃ cycle, r.buf (j % 31) = r.pushed[j].stamped cycle) ∧
      ∀ t, UsbStep s t → ∀ ρ, s.driver.pushedTo ρ <+: t.driver.pushedTo ρ ∧
        ∀ k, (s.driver.pushedTo ρ).length ≤ k → k < (t.driver.pushedTo ρ).length →
          k - s.consumed ρ < 30 ∧ ∀ j, j < k → j % 31 = k % 31 → ¬ s.Live ρ j := by
  have hrun : descriptorRequested.map (fun c => (c.pushedTo (.transfer 1#8 0)).length) =
      some 3 := by decide +kernel
  obtain ⟨c, hc, hlength⟩ := Option.map_eq_some_iff.mp hrun
  have hreach := descriptorRequested_reachable hc
  exact ⟨_, hreach, rfl, hlength, .inl (Nat.le_refl 0), rings_not_overrun hreach⟩

end TommyOS.Usb
