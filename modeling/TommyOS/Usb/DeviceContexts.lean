import TommyOS.Lib.InputRun
import TommyOS.Usb.FailedCommands
import TommyOS.Usb.HandlerCalls

/-!
# The device context array

`Initialize` stores the scratchpad in the first entry of the array, and an entry behind it is the
context of the device of its slot. Here are the runs of any calls of the driver, and what they
do to the array.
-/

namespace TommyOS.Usb

/-! ## Calls -/

/-- A call of the driver, with an event for `ProcessEvent`. -/
inductive DriverCall where
  | configurePort (m : Machine) (port : BitVec 8)
  | processEvent (m : Machine) (trb : TRB)

namespace DriverCall

def perform (c : Controller) : DriverCall → Option Controller
  | configurePort m port => some (c.configurePort m port).2
  | processEvent m trb => (c.onEvent m trb).map Prod.snd

/-- An Enable Slot command completes with slot 0 while the driver waits for a slot. -/
def TakesSlotZero (c : Controller) : DriverCall → Prop
  | configurePort _ _ => False
  | processEvent m trb =>
    trb.trbType = CommandCompletionEventTRB.type ∧ commandType m trb = EnableSlotCommandTRB.type ∧
      c.portConfigPhase c.addressingPort = .kEnablingSlot ∧
      CommandCompletionEventTRB.slotId trb = 0#8

end DriverCall

open InputRun

/-! ## What a call does to the array -/

/-- The entries of the array stay, and so do the objects of the slots. -/
structure KeepsContexts (c c' : Controller) : Prop where
  pointers : c'.deviceContextPointers = c.deviceContextPointers
  objects : ∀ slotId d, c.devices slotId = some d →
    ∃ d', c'.devices slotId = some d' ∧ d'.inputContextAddress = d.inputContextAddress

theorem KeepsContexts.trans {c c' c'' : Controller} (h : KeepsContexts c c')
    (h' : KeepsContexts c' c'') :
    KeepsContexts c c'' where
  pointers := h'.pointers.trans h.pointers
  objects := by
    intro q d hd
    obtain ⟨d₁, hd₁, hobject₁⟩ := h.objects q d hd
    obtain ⟨d₂, hd₂, hobject₂⟩ := h'.objects q d₁ hd₁
    exact ⟨d₂, hd₂, hobject₂.trans hobject₁⟩

namespace Controller

variable {m : Machine} {c c' : Controller} {err : Error} {trb : TRB} {port slotId : BitVec 8}
  {d d' : Device}

/-- A function that touches neither keeps the contexts. -/
theorem keepsContexts_of_eq (hpointers : c'.deviceContextPointers = c.deviceContextPointers)
    (hdevices : c'.devices = c.devices) : KeepsContexts c c' where
  pointers := hpointers
  objects := fun slotId d hd => ⟨d, by rw [hdevices, hd], rfl⟩

/-- The device of a slot is updated in place. -/
theorem keepsContexts_of_update (hd : c.devices slotId = some d)
    (hobject : d'.inputContextAddress = d.inputContextAddress)
    (hpointers : c'.deviceContextPointers = c.deviceContextPointers)
    (hdevices : c'.devices = Function.update c.devices slotId (some d')) : KeepsContexts c c' where
  pointers := hpointers
  objects := by
    intro q d₁ hd₁
    by_cases hq : q = slotId
    · subst hq
      obtain rfl := Option.some.inj (hd₁.symm.trans hd)
      exact ⟨d', by rw [hdevices, Function.update_self], hobject⟩
    · exact ⟨d₁, by rw [hdevices, Function.update_of_ne hq, hd₁], rfl⟩

theorem configureEndpointContexts_object {speed n : ℕ}
    (h : configureEndpointContexts m speed d n = some d') :
    d'.inputContextAddress = d.inputContextAddress := by
  induction n generalizing d' with
  | zero => rw [← Option.some.inj h]
  | succ n ih =>
    unfold configureEndpointContexts Device.allocTransferRing at h
    simp only [Option.bind_eq_bind, Option.bind_eq_some_iff] at h
    obtain ⟨d₁, hrest, ctx, -, ⟨tr, d₂⟩, hring, tr', -, h⟩ := h
    split at hring
    · obtain ⟨-, rfl⟩ := Prod.mk.injEq .. ▸ Option.some.inj hring
      have hobject := ih hrest
      rw [← Option.some.inj h]
      exact hobject
    · exact absurd hring (by simp)

/-- A reset keeps the contexts. -/
theorem resetPort_keeps : KeepsContexts c (c.resetPort m port).2 := by
  rcases resetPort_cases m c port with ⟨-, heq⟩ | ⟨-, -, heq⟩ | ⟨-, -, -, -, heq⟩ |
    ⟨-, -, -, heq⟩
  all_goals
    rw [heq]
    exact keepsContexts_of_eq rfl rfl

theorem initializeDevice_keeps (h : c.initializeDevice port slotId = some (err, c')) :
    KeepsContexts c c' := by
  rcases initializeDevice_cases h with ⟨-, rfl⟩ | ⟨d, _, d', hd, hstart, rfl⟩
  · exact keepsContexts_of_eq rfl rfl
  · exact keepsContexts_of_update (findBySlot_eq_some.mp hd).2
      (Device.startInitialize_object hstart) rfl rfl

theorem onAddressDeviceCompleted_keeps
    (h : c.onAddressDeviceCompleted m port slotId = some (err, c')) : KeepsContexts c c' := by
  rcases onAddressDeviceCompleted_cases h with ⟨-, rfl⟩ | ⟨-, -, c₁, hhand, hinit⟩
  · exact keepsContexts_of_eq rfl rfl
  · have hkeeps : KeepsContexts c c₁ := by
      rcases hhand with ⟨-, rfl⟩ | ⟨_, -, -, rfl⟩
      · exact keepsContexts_of_eq rfl rfl
      · exact keepsContexts_of_eq rfl rfl
    exact hkeeps.trans (initializeDevice_keeps hinit)

theorem completeConfiguration_keeps
    (h : c.completeConfiguration port slotId = some (err, c')) : KeepsContexts c c' := by
  rcases completeConfiguration_cases h with ⟨-, rfl⟩ | ⟨d, _, d', hd, hcall, rfl⟩
  · exact keepsContexts_of_eq rfl rfl
  · exact keepsContexts_of_update (findBySlot_eq_some.mp hd).2
      (Device.onEndpointsConfiguredFrom_object hcall) rfl rfl

/-- So does a transfer event. -/
theorem onTransfer_keeps (h : c.onTransfer m trb = some (err, c')) : KeepsContexts c c' := by
  rcases onTransfer_cases h with ⟨-, rfl⟩ | ⟨d, _, d', hd, hreceived, hrest⟩
  · exact keepsContexts_of_eq rfl rfl
  · have hobject := Device.onTransferEventReceived_object hreceived
    have hslot := (findBySlot_eq_some.mp hd).2
    rcases hrest with rfl | ⟨-, -, hconfigure⟩
    · exact keepsContexts_of_update hslot hobject rfl rfl
    · rcases configureEndpoints_cases hconfigure with rfl | ⟨_, d₁, _, _, hcontexts, -, rfl⟩
      · have hobject' : Device.inputContextAddress { d' with
            inputContext := configureInputContext m (TransferEventTRB.slotId trb)
              d'.inputContext } = d.inputContextAddress := hobject
        exact keepsContexts_of_update hslot hobject' rfl (Function.update_idem _ _ _)
      · exact keepsContexts_of_update hslot
          ((configureEndpointContexts_object hcontexts).trans hobject) rfl
          (Function.update_idem _ _ _)

theorem onPortStatusChange_keeps (h : c.onPortStatusChange m trb = some (err, c')) :
    KeepsContexts c c' := by
  unfold onPortStatusChange at h
  simp only at h
  split at h
  · rw [show c' = _ from congrArg Prod.snd (Option.some.inj h).symm]
    exact resetPort_keeps
  · rcases enableSlot_cases h with rfl | ⟨_, _, -, rfl⟩
    · exact keepsContexts_of_eq rfl rfl
    · exact keepsContexts_of_eq rfl rfl
  · rw [← (Prod.mk.inj (Option.some.inj h)).2]
    exact keepsContexts_of_eq rfl rfl

/-- A slot that is assigned gets a device, unless it has one, and its entry in the array. -/
structure SlotLoaded (c : Controller) (slotId : BitVec 8) (c' : Controller) : Prop where
  pointers : c'.deviceContextPointers =
    Function.update c.deviceContextPointers slotId (some (.device slotId))
  device : ∃ d, c'.devices slotId = some d
  objects : ∀ q d, c.devices q = some d →
    ∃ d', c'.devices q = some d' ∧ d'.inputContextAddress = d.inputContextAddress

/-- `AddressDevice` loads the context of the slot that it was given. -/
theorem addressDevice_loads (h : c.addressDevice m port slotId = some (err, c')) :
    (kDeviceSize < slotId ∧ c' = c) ∨ (slotId ≤ kDeviceSize ∧ SlotLoaded c slotId c') := by
  rcases addressDevice_cases h with hnone | ⟨d, _, _, _, _, hslot, hfor, -, -, -, rfl⟩
  · exact .inl hnone
  · refine .inr ⟨hslot, rfl, ⟨_, Function.update_self _ _ _⟩, fun q d₁ hd₁ => ?_⟩
    by_cases hq : q = slotId
    · subst hq
      -- a slot that has a device keeps it
      rcases hfor with hd | ⟨hnone, -⟩
      · obtain rfl := Option.some.inj (hd₁.symm.trans hd)
        exact ⟨_, Function.update_self _ _ _, rfl⟩
      · exact absurd (hnone.symm.trans hd₁) (by simp)
    · exact ⟨d₁, (Function.update_of_ne hq _ _).trans hd₁, rfl⟩

/-- A slot that was asked for is addressed. -/
theorem onCommandCompletion_enabling (htype : commandType m trb = EnableSlotCommandTRB.type)
    (hphase : c.portConfigPhase c.addressingPort = .kEnablingSlot) :
    c.onCommandCompletion m trb =
      c.addressDevice m c.addressingPort (CommandCompletionEventTRB.slotId trb) := by
  unfold onCommandCompletion
  simp only [← commandType.eq_1 m trb]
  rw [if_pos htype, if_neg (not_not_intro hphase)]

/-- Of the completions only that of an awaited Enable Slot command loads an entry. -/
theorem onCommandCompletion_loads (h : c.onCommandCompletion m trb = some (err, c')) :
    (KeepsContexts c c' ∧ ¬ (commandType m trb = EnableSlotCommandTRB.type ∧
      c.portConfigPhase c.addressingPort = .kEnablingSlot ∧
      CommandCompletionEventTRB.slotId trb ≤ kDeviceSize)) ∨
    (commandType m trb = EnableSlotCommandTRB.type ∧
      c.portConfigPhase c.addressingPort = .kEnablingSlot ∧
      SlotLoaded c (CommandCompletionEventTRB.slotId trb) c') := by
  by_cases henabling : commandType m trb = EnableSlotCommandTRB.type ∧
      c.portConfigPhase c.addressingPort = .kEnablingSlot
  · rw [onCommandCompletion_enabling henabling.1 henabling.2] at h
    rcases addressDevice_loads h with ⟨hlt, rfl⟩ | ⟨hslot, hloaded⟩
    · exact .inl ⟨keepsContexts_of_eq rfl rfl,
        fun hall => absurd hall.2.2 (BitVec.not_le.mpr hlt)⟩
    · exact .inr ⟨henabling.1, henabling.2, hloaded⟩
  · refine .inl ⟨?_, fun hall => henabling ⟨hall.1, hall.2.1⟩⟩
    rcases onCommandCompletion_cases h with rfl | ⟨htype, hphase, -⟩ | ⟨-, _, -, haddressed⟩ |
      ⟨-, _, -, -, hcomplete⟩
    · exact keepsContexts_of_eq rfl rfl
    · exact absurd ⟨htype, hphase⟩ henabling
    · exact onAddressDeviceCompleted_keeps haddressed
    · exact completeConfiguration_keeps hcomplete

/-- What a call does to the array: nothing, or it loads the entry of a slot. -/
theorem perform_loads {call : DriverCall} (h : call.perform c = some c') :
    (KeepsContexts c c' ∧ ¬ call.TakesSlotZero c) ∨
    ∃ slotId, SlotLoaded c slotId c' ∧ (call.TakesSlotZero c ↔ slotId = 0#8) := by
  cases call with
  | configurePort m port =>
    refine .inl ⟨?_, fun htaken => htaken⟩
    rw [← Option.some.inj h]
    unfold configurePort
    split
    · exact resetPort_keeps
    · exact keepsContexts_of_eq rfl rfl
  | processEvent m trb =>
    obtain ⟨⟨err, c₁⟩, hevent, rfl⟩ := Option.map_eq_some_iff.mp h
    -- of the events only a command completion can load an entry
    unfold onEvent at hevent
    split at hevent
    · next htype =>
      refine .inl ⟨onTransfer_keeps hevent, fun htaken => ?_⟩
      exact absurd (htype.symm.trans htaken.1) (by decide)
    · split at hevent
      · next htype =>
        refine .inl ⟨onPortStatusChange_keeps hevent, fun htaken => ?_⟩
        exact absurd (htype.symm.trans htaken.1) (by decide)
      · split at hevent
        · next htype =>
          rcases onCommandCompletion_loads hevent with ⟨hkeeps, hnot⟩ |
            ⟨hissuer, hphase, hloaded⟩
          · refine .inl ⟨hkeeps, fun htaken => hnot ⟨htaken.2.1, htaken.2.2.1, ?_⟩⟩
            rw [htaken.2.2.2]
            decide
          · exact .inr ⟨_, hloaded, fun htaken => htaken.2.2.2,
              fun hzero => ⟨htype, hissuer, hphase, hzero⟩⟩
        · next htype =>
          rw [← (Prod.mk.inj (Option.some.inj hevent)).2]
          exact .inl ⟨keepsContexts_of_eq rfl rfl, fun htaken => htype htaken.1⟩

/-- The first entry is overwritten exactly by a slot 0. -/
theorem perform_scratchpad {call : DriverCall} (h : call.perform c = some c') :
    (¬ call.TakesSlotZero c → c'.deviceContextPointers 0#8 = c.deviceContextPointers 0#8) ∧
    (call.TakesSlotZero c → c'.deviceContextPointers 0#8 = some (.device 0#8)) := by
  rcases perform_loads h with ⟨hkeeps, hnot⟩ | ⟨slotId, hloaded, hzero⟩
  · exact ⟨fun _ => congrFun hkeeps.pointers _, fun htaken => absurd htaken hnot⟩
  · rw [hloaded.pointers]
    refine ⟨fun hnot => ?_, fun htaken => ?_⟩
    · exact Function.update_of_ne (fun heq => hnot (hzero.mpr heq.symm)) _ _
    · rw [hzero.mp htaken, Function.update_self]

/-- A device that was allocated stays in its slot. -/
theorem perform_objects {call : DriverCall} (h : call.perform c = some c')
    (hd : c.devices slotId = some d) :
    ∃ d', c'.devices slotId = some d' ∧ d'.inputContextAddress = d.inputContextAddress := by
  rcases perform_loads h with ⟨hkeeps, -⟩ | ⟨_, hloaded, -⟩
  · exact hkeeps.objects slotId d hd
  · exact hloaded.objects slotId d hd

/-! ## Runs -/

/-- The entries of slots are the contexts of their devices. -/
def SlotEntries (c : Controller) : Prop :=
  ∀ i p, i ≠ 0#8 → c.deviceContextPointers i = some p →
    p = .device i ∧ ∃ d, c.devices i = some d

theorem slotEntries_initializeWith (maxPorts : BitVec 8) (commandRing : BitVec 64)
    (scratchpad : Option (BitVec 64)) :
    (initializeWith maxPorts commandRing scratchpad).SlotEntries := by
  intro i p hi hp
  have hnone : (initializeWith maxPorts commandRing scratchpad).deviceContextPointers i = none :=
    if_neg hi
  exact absurd (hnone.symm.trans hp) (by simp)

/-- Each call keeps the entries of the slots. -/
theorem slotEntries_of_perform {call : DriverCall} (hentries : c.SlotEntries)
    (h : call.perform c = some c') : c'.SlotEntries := by
  intro i p hi hp
  rcases perform_loads h with ⟨hkeeps, -⟩ | ⟨slotId, hloaded, -⟩
  · rw [hkeeps.pointers] at hp
    obtain ⟨heq, d, hd⟩ := hentries i p hi hp
    obtain ⟨d', hd', -⟩ := hkeeps.objects i d hd
    exact ⟨heq, d', hd'⟩
  · rw [hloaded.pointers] at hp
    by_cases hslot : i = slotId
    · subst hslot
      rw [Function.update_self] at hp
      exact ⟨(Option.some.inj hp).symm, hloaded.device⟩
    · rw [Function.update_of_ne hslot] at hp
      obtain ⟨heq, d, hd⟩ := hentries i p hi hp
      obtain ⟨d', hd', -⟩ := hloaded.objects i d hd
      exact ⟨heq, d', hd'⟩

end Controller

/-- After a run from `c₀` the first entry is as it was, every other one is the context of the
device of its slot, and no slot has got another device since it has one. -/
structure ContextsKept (c₀ : Controller) (calls : List DriverCall) (c : Controller) : Prop where
  scratchpad : c.deviceContextPointers 0#8 = c₀.deviceContextPointers 0#8
  entries : c.SlotEntries
  objects : ∀ before after c₁ slotId d, before ++ after = calls →
    run DriverCall.perform c₀ before = some c₁ → c₁.devices slotId = some d →
    ∃ d', c.devices slotId = some d' ∧ d'.inputContextAddress = d.inputContextAddress

/-- After any calls since `Initialize` the entry of the scratchpad and those of the devices are
as they should be exactly when no Enable Slot command completed with slot 0 while the driver
waited for a slot. -/
theorem contextsKept_iff {maxPorts : BitVec 8} {commandRing : BitVec 64}
    {scratchpad : Option (BitVec 64)} {calls : List DriverCall} {c : Controller}
    (h : run DriverCall.perform (.initializeWith maxPorts commandRing scratchpad) calls =
      some c) :
    ContextsKept (.initializeWith maxPorts commandRing scratchpad) calls c ↔
      ¬ Meets DriverCall.perform (fun c call => call.TakesSlotZero c)
        (.initializeWith maxPorts commandRing scratchpad) calls := by
  -- at first entry 0 has the scratchpad or nothing, never the context of a device
  have hne : (Controller.initializeWith maxPorts commandRing scratchpad).deviceContextPointers
      0#8 ≠ some (.device 0#8) := by
    show scratchpad.map DeviceContextPointer.scratchpad ≠ _
    cases scratchpad with
    | none => exact nofun
    | some array => exact fun heq => DeviceContextPointer.noConfusion (Option.some.inj heq)
  have hscratchpad := observed_eq_iff (f := fun c : Controller => c.deviceContextPointers 0#8)
    (fun _ _ _ hcall hnot => (Controller.perform_scratchpad hcall).1 hnot)
    (fun _ _ _ hcall htaken => (Controller.perform_scratchpad hcall).2 htaken) hne h
  refine ⟨fun hkept => hscratchpad.mp hkept.scratchpad, fun hnever => ?_⟩
  refine ⟨hscratchpad.mpr hnever, ?_, ?_⟩
  · exact run_invariant (fun _ _ _ hentries hcall =>
      Controller.slotEntries_of_perform hentries hcall)
      (Controller.slotEntries_initializeWith maxPorts commandRing scratchpad) h
  -- the object of a slot stays the same for the rest of the run
  · rintro before after c₁ slotId d rfl hbefore hd
    obtain ⟨c₂, hc₂, hafter⟩ := run_append.mp h
    obtain rfl := Option.some.inj (hbefore.symm.trans hc₂)
    refine run_invariant (R := fun c : Controller => ∃ d', c.devices slotId = some d' ∧
      d'.inputContextAddress = d.inputContextAddress) ?_ ⟨d, hd, rfl⟩ hafter
    rintro c call c' ⟨d₁, hd₁, hobject₁⟩ hcall
    obtain ⟨d₂, hd₂, hobject₂⟩ := Controller.perform_objects hcall hd₁
    exact ⟨d₂, hd₂, hobject₂.trans hobject₁⟩

/-! The controller has no slot left for a device that is plugged in. -/

/-- The calls up to the completion of the Enable Slot command, which fails with slot 0. -/
def noSlotsCalls : List DriverCall :=
  let m := exampleMachine (pluggedPorts [1#8]) 0
  [.configurePort m 1#8, .processEvent m (portStatusChangeEvent 1#8),
    .processEvent enableSlotMachine noSlotsEvent]

/-- What the array holds for the scratchpad after some calls. -/
def scratchpadAfter (calls : List DriverCall) : Option (Option DeviceContextPointer) := do
  let c ← run DriverCall.perform (.initializeWith 4#8 0x1000#64 (some 0x8000#64)) calls
  some (c.deviceContextPointers 0#8)

/-- The first entry becomes the context of a device. -/
theorem scratchpad_overwritten :
    ∃ c, run DriverCall.perform (.initializeWith 4#8 0x1000#64 (some 0x8000#64)) noSlotsCalls =
        some c ∧
      (Controller.initializeWith 4#8 0x1000#64 (some 0x8000#64)).deviceContextPointers 0#8 =
        some (.scratchpad 0x8000#64) ∧
      c.deviceContextPointers 0#8 = some (.device 0#8) ∧
      ¬ ContextsKept (.initializeWith 4#8 0x1000#64 (some 0x8000#64)) noSlotsCalls c := by
  have hafter : scratchpadAfter noSlotsCalls = some (some (.device 0#8)) := by decide +kernel
  unfold scratchpadAfter at hafter
  simp only [Option.bind_eq_bind, Option.bind_eq_some_iff, Option.some.injEq] at hafter
  obtain ⟨c, hrun, hpointer⟩ := hafter
  refine ⟨c, hrun, rfl, hpointer, fun hkept => ?_⟩
  have hsame := hkept.scratchpad
  rw [hpointer] at hsame
  exact absurd hsame (by decide)

/-- The same calls without the last one. -/
theorem contextsKept_iff_waiting :
    ∃ c, run DriverCall.perform (.initializeWith 4#8 0x1000#64 (some 0x8000#64))
        (noSlotsCalls.take 2) = some c ∧
      (ContextsKept (.initializeWith 4#8 0x1000#64 (some 0x8000#64)) (noSlotsCalls.take 2) c ↔
        ¬ Meets DriverCall.perform (fun c call => call.TakesSlotZero c)
          (.initializeWith 4#8 0x1000#64 (some 0x8000#64)) (noSlotsCalls.take 2)) := by
  have hafter : scratchpadAfter (noSlotsCalls.take 2) = some (some (.scratchpad 0x8000#64)) := by
    decide +kernel
  unfold scratchpadAfter at hafter
  simp only [Option.bind_eq_bind, Option.bind_eq_some_iff, Option.some.injEq] at hafter
  obtain ⟨c, hrun, -⟩ := hafter
  exact ⟨c, hrun, contextsKept_iff hrun⟩

end TommyOS.Usb
