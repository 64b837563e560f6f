import TommyOS.Usb.EndpointIndices
import TommyOS.Usb.PortAddressing

/-!
# The indices of endpoints

The index that a device gives an endpoint is used when its endpoints are configured, and each time
`InterruptIn` is called. It is not checked anywhere: it is in the range in the runs whose devices
answer with usable endpoints.
-/

namespace TommyOS.Usb

namespace Controller

open Device

variable {m : Machine} {c c' : Controller} {d d' : Device} {err : Error} {trb : TRB}
  {port slotId : BitVec 8} {speed n : ℕ}

/-! ## The contexts -/

/-- Endpoints in the range leave the slot context, the context of the default pipe and its ring as
they are. -/
theorem configureEndpointContexts_inRange (hrange : ∀ k < n, (d.epConfigs k).epId.InRange)
    (h : configureEndpointContexts m speed d n = some d') :
    ∃ ctx rings, d' = { d with inputContext := ctx, transferRings := rings } ∧
      ctx.slotContext = d.inputContext.slotContext ∧
      ctx.epContexts 0 = d.inputContext.epContexts 0 ∧ rings 0 = d.transferRings 0 := by
  -- each round enables one endpoint, and none of them is the default pipe
  induction n generalizing d' with
  | zero =>
    obtain rfl := Option.some.inj h
    exact ⟨d.inputContext, d.transferRings, rfl, rfl, rfl, rfl⟩
  | succ n ih =>
    unfold configureEndpointContexts allocTransferRing InputContext.enableEndpoint at h
    simp only [Option.bind_eq_bind, Option.bind_eq_some_iff] at h
    obtain ⟨d₁, hd₁, ctx, hctx, ⟨tr, d₂⟩, halloc, base, hbase, h⟩ := h
    obtain ⟨ctx₁, rings₁, hsame, hslot, hdefault, hring⟩ :=
      ih (fun k hk => hrange k (Nat.lt_succ_of_lt hk)) hd₁
    obtain ⟨hlow, hhigh⟩ := hrange n (Nat.lt_succ_self n)
    have hindex : 1 ≤ (d₁.epConfigs n).epId.address ∧ (d₁.epConfigs n).epId.address ≤ 31 := by
      rw [hsame]
      exact ⟨Nat.le_of_succ_le hlow, hhigh⟩
    have hother : (0 : ℕ) ≠ (d₁.epConfigs n).epId.address - 1 := by
      rw [hsame]
      show 0 ≠ (d.epConfigs n).epId.address - 1
      omega
    rw [if_pos hindex] at hctx halloc
    obtain rfl := Option.some.inj hctx
    rw [Option.some.injEq, Prod.mk.injEq] at halloc
    obtain ⟨rfl, rfl⟩ := halloc
    subst hsame
    refine ⟨_, _, (Option.some.inj h).symm, hslot, ?_, ?_⟩
    · exact (Function.update_of_ne hother _ _).trans hdefault
    · exact (Function.update_of_ne hother _ _).trans hring

/-- They are in the arrays. -/
theorem configureEndpointContexts_isSome (hrange : ∀ k < n, (d.epConfigs k).epId.InRange)
    (hrings : ∀ k, (m.newRing k).isSome = true) :
    (configureEndpointContexts m speed d n).isSome = true := by
  induction n with
  | zero => rfl
  | succ n ih =>
    have hrest : ∀ k < n, (d.epConfigs k).epId.InRange := fun k hk =>
      hrange k (Nat.lt_succ_of_lt hk)
    obtain ⟨d₁, hd₁⟩ := Option.isSome_iff_exists.mp (ih hrest)
    obtain ⟨ctx, rings, rfl, -⟩ := configureEndpointContexts_inRange hrest hd₁
    obtain ⟨base, hbase⟩ := Option.isSome_iff_exists.mp (hrings n)
    obtain ⟨hlow, hhigh⟩ := hrange n (Nat.lt_succ_self n)
    have hindex : 1 ≤ (d.epConfigs n).epId.address ∧ (d.epConfigs n).epId.address ≤ 31 := by omega
    unfold configureEndpointContexts allocTransferRing InputContext.enableEndpoint
    simp only [hd₁, hbase, if_pos hindex, Option.bind_eq_bind, Option.bind_some, Option.map_some,
      Option.isSome_some]

/-! ## Runs -/

/-- An event that the controller posts: one about a normal TRB comes behind such a TRB of its
device, and a device gets its address once. -/
structure Genuine (m : Machine) (c : Controller) (trb : TRB) : Prop where
  normal : trb.trbType = TransferEventTRB.type →
    ∀ d, c.findBySlot (TransferEventTRB.slotId trb) = some d → d.GenuineEvent m trb
  address : trb.trbType = CommandCompletionEventTRB.type →
    (m.trbAt trb.pointer).trbType = AddressDeviceCommandTRB.type →
    ∀ d, c.findBySlot (CommandCompletionEventTRB.slotId trb) = some d → d.initializePhase = 0

/-- When a device answers with its configuration, the endpoints in it are usable. -/
def UsableAnswers (m : Machine) (c : Controller) (trb : TRB) : Prop :=
  trb.trbType = TransferEventTRB.type →
    ∀ d, c.findBySlot (TransferEventTRB.slotId trb) = some d → d.UsableAnswer m trb

/-- A call of `ConfigurePort`, or `ProcessEvent` with an event that meets a condition. -/
inductive EndpointStep (P : Machine → Controller → TRB → Prop) (c : Controller) :
    Controller → Prop where
  | configurePort (m : Machine) (port : BitVec 8) : EndpointStep P c (c.configurePort m port).2
  | processEvent {m : Machine} {trb : TRB} {err : Error} {c' : Controller} : Genuine m c trb →
      P m c trb → c.onEvent m trb = some (err, c') → EndpointStep P c c'

/-- The driver from `Initialize` on. -/
def endpointSystem (P : Machine → Controller → TRB → Prop) (maxPorts : BitVec 8)
    (commandRing : BitVec 64) (scratchpad : Option (BitVec 64)) : TransitionSystem Controller where
  init c := c = .initializeWith maxPorts commandRing scratchpad
  step := EndpointStep P

/-- The indices of endpoints of devices that are used while an event is handled: the argument of
`InterruptIn`, and in the loop of `ConfigureEndpoints` those of `EnableEndpoint` and
`AllocTransferRing`. -/
inductive UsesIndex (m : Machine) (c : Controller) (trb : TRB) : ℕ → Prop where
  | interruptIn {d : Device} {epId : EndpointID} : trb.trbType = TransferEventTRB.type →
      c.findBySlot (TransferEventTRB.slotId trb) = some d →
      d.interruptEndpoint m trb = some epId → UsesIndex m c trb epId.address
  | configureEndpoints {d d' : Device} {err : Error} {n : ℕ} :
      trb.trbType = TransferEventTRB.type →
      c.findBySlot (TransferEventTRB.slotId trb) = some d →
      d.onTransferEventReceived m trb = some (err, d') → err.failed = false →
      d'.isInitialized = true →
      c.portConfigPhase (m.slotContext (TransferEventTRB.slotId trb)).rootHubPortNum =
        .kInitializingDevice →
      (m.speed (m.slotContext (TransferEventTRB.slotId trb)).rootHubPortNum).toNat ≠ 0 →
      (m.speed (m.slotContext (TransferEventTRB.slotId trb)).rootHubPortNum).toNat ≤
        kSuperSpeedPlus →
      n < d'.numEpConfigs → UsesIndex m c trb (d'.epConfigs n).epId.address

/-- What the devices have stored. -/
def EndpointInvariant (c : Controller) : Prop :=
  ∀ slotId d, c.devices slotId = some d → d.EndpointStage

theorem EndpointInvariant.update (h : EndpointInvariant c)
    (hdevices : c'.devices = Function.update c.devices slotId (some d'))
    (hstage : d'.EndpointStage) :
    EndpointInvariant c' := by
  intro slotId' d hd
  rw [hdevices, Function.update_apply] at hd
  split at hd
  · rw [← Option.some.inj hd]
    exact hstage
  · exact h slotId' d hd

theorem EndpointInvariant.congr (h : EndpointInvariant c) (hdevices : c'.devices = c.devices) :
    EndpointInvariant c' := by
  unfold EndpointInvariant
  rw [hdevices]
  exact h

/-! ## Steps -/

theorem onTransfer_endpoints (hinv : EndpointInvariant c)
    (htype : trb.trbType = TransferEventTRB.type)
    (hgenuine : Genuine m c trb) (husable : UsableAnswers m c trb)
    (h : c.onTransfer m trb = some (err, c')) : EndpointInvariant c' := by
  rcases onTransfer_cases h with ⟨-, rfl⟩ | ⟨d, err', d', hfind, hreceived, hc⟩
  · exact hinv
  · have hstage := onTransferEventReceived_stage (hinv _ d (findBySlot_eq_some.mp hfind).2)
      (hgenuine.normal htype d hfind) (husable htype d hfind) hreceived
    have hset : EndpointInvariant (c.setDevice (TransferEventTRB.slotId trb) d') :=
      hinv.update rfl hstage
    rcases hc with rfl | ⟨hinit, -, hconfigure⟩
    · exact hset
    · rcases configureEndpoints_cases hconfigure with rfl | ⟨speed, d'', p, cr, hcontexts, -, rfl⟩
      · exact hset.update rfl (hstage.congr rfl (.inr hinit))
      · obtain ⟨ctx, rings, hd'', -⟩ := configureEndpointContexts_inRange
          (d := { d' with inputContext :=
            configureInputContext m (TransferEventTRB.slotId trb) d'.inputContext })
          (hstage.inRange hinit) hcontexts
        exact hset.update rfl (hstage.congr hd'' (.inr hinit))

theorem onCommandCompletion_endpoints (hinv : EndpointInvariant c)
    (htype : trb.trbType = CommandCompletionEventTRB.type) (hgenuine : Genuine m c trb)
    (h : c.onCommandCompletion m trb = some (err, c')) : EndpointInvariant c' := by
  -- nothing, or one of the three commands the driver issues has completed
  rcases onCommandCompletion_cases h with rfl | ⟨-, -, haddress⟩ | ⟨haddressed, -, -, hcompleted⟩ |
    ⟨-, -, -, -, hconfigured⟩
  · exact hinv
  · rcases addressDevice_cases haddress with ⟨-, rfl⟩ |
      ⟨d, base, ctx, p, cr, -, hfor, -, -, -, rfl⟩
    · exact hinv
    · refine hinv.update rfl ?_
      have hstage : d.EndpointStage := by
        rcases hfor with hd | ⟨-, addresses, -, rfl⟩
        · exact hinv _ d hd
        · exact .undriven (undriven_new _ addresses)
      refine hstage.congr rfl (.inl ?_)
      exact noNormal_update rfl fun trb htrb => absurd htrb List.not_mem_nil
  · rcases onAddressDeviceCompleted_cases hcompleted with ⟨-, rfl⟩ | ⟨-, -, c₁, hc₁, hinitialize⟩
    · exact hinv
    · have hdevices : c₁.devices = c.devices := by
        rcases hc₁ with ⟨-, rfl⟩ | ⟨_, -, -, rfl⟩
        · rfl
        · rfl
      rcases initializeDevice_cases hinitialize with ⟨-, rfl⟩ | ⟨d, err', d', hfind, hstart, rfl⟩
      · exact hinv.congr hdevices
      · rw [findBySlot_congr hdevices] at hfind
        refine (hinv.congr hdevices).update rfl ?_
        exact startInitialize_stage (hinv _ d (findBySlot_eq_some.mp hfind).2)
          (hgenuine.address htype haddressed d hfind) hstart
  · rcases completeConfiguration_cases hconfigured with ⟨-, rfl⟩ |
      ⟨d, err', d', hfind, hend, rfl⟩
    · exact hinv
    · refine hinv.update rfl ?_
      exact onEndpointsConfiguredFrom_stage (hinv _ d (findBySlot_eq_some.mp hfind).2) hend

theorem endpointInvariant_of_step (hinv : EndpointInvariant c)
    (hstep : EndpointStep UsableAnswers c c') : EndpointInvariant c' := by
  cases hstep with
  | configurePort m port => exact hinv.congr (configurePort_devices m c port)
  | @processEvent m trb err _ hgenuine husable hevent =>
    unfold onEvent at hevent
    split at hevent
    · next htype => exact onTransfer_endpoints hinv htype hgenuine husable hevent
    · split at hevent
      · exact hinv.congr (onPortStatusChange_devices hevent)
      · split at hevent
        · next htype => exact onCommandCompletion_endpoints hinv htype hgenuine hevent
        · rw [← (Prod.mk.inj (Option.some.inj hevent)).2]
          exact hinv

/-- The devices of every run have stored endpoints in the range only. -/
theorem endpointInvariant_of_reachable {maxPorts : BitVec 8} {commandRing : BitVec 64}
    {scratchpad : Option (BitVec 64)}
    (h : (endpointSystem UsableAnswers maxPorts commandRing scratchpad).Reachable c) :
    EndpointInvariant c := by
  refine TransitionSystem.Reachable.invariant ?_ (fun c c' _ => endpointInvariant_of_step) h
  intro c hc slotId d hd
  rw [show c = _ from hc] at hd
  exact absurd hd (by simp [initializeWith])

/-! ## The indices of a run -/

/-- In a run whose devices answer with usable endpoints, `InterruptIn`, `EnableEndpoint` and
`AllocTransferRing` are called for indices from 2 to 31 of the endpoints of devices only. So
configuring the endpoints stays in the arrays, and leaves the slot context, the context of the
default pipe and its ring as they are. That an event calls `InterruptIn` for the endpoint of
`interruptEndpoint`, and touches no other ring of an endpoint, is
`onTransferEventReceived_interruptIn` and `onTransferEventReceived_othersKept`. -/
theorem endpointIndex_inRange {maxPorts : BitVec 8} {commandRing : BitVec 64}
    {scratchpad : Option (BitVec 64)}
    (h : (endpointSystem UsableAnswers maxPorts commandRing scratchpad).Reachable c)
    (hgenuine : Genuine m c trb) (husable : UsableAnswers m c trb) :
    (∀ dci, UsesIndex m c trb dci → 2 ≤ dci ∧ dci ≤ 31) ∧
    ∀ d err d', trb.trbType = TransferEventTRB.type →
      c.findBySlot (TransferEventTRB.slotId trb) = some d →
      d.onTransferEventReceived m trb = some (err, d') → d'.isInitialized = true →
      ∀ ctx speed, ((∀ k, (m.newRing k).isSome = true) →
        (configureEndpointContexts m speed { d' with inputContext := ctx }
          d'.numEpConfigs).isSome = true) ∧
        ∀ d'', configureEndpointContexts m speed { d' with inputContext := ctx }
            d'.numEpConfigs = some d'' →
          d''.inputContext.slotContext = ctx.slotContext ∧
          d''.inputContext.epContexts 0 = ctx.epContexts 0 ∧
          d''.transferRings 0 = d'.transferRings 0 := by
  have hinv := endpointInvariant_of_reachable h
  have hrange : ∀ d err d', trb.trbType = TransferEventTRB.type →
      c.findBySlot (TransferEventTRB.slotId trb) = some d →
      d.onTransferEventReceived m trb = some (err, d') → d'.isInitialized = true →
      ∀ n < d'.numEpConfigs, (d'.epConfigs n).epId.InRange := by
    intro d err d' htype hfind hreceived hinit
    have hstage := onTransferEventReceived_stage (hinv _ d (findBySlot_eq_some.mp hfind).2)
      (hgenuine.normal htype d hfind) (husable htype d hfind) hreceived
    exact hstage.inRange hinit
  constructor
  · intro dci huse
    -- an index is used for a report, or when the endpoints are configured
    cases huse with
    | @interruptIn d epId htype hfind hcall =>
      exact interruptEndpoint_inRange (hinv _ d (findBySlot_eq_some.mp hfind).2)
        (hgenuine.normal htype d hfind) hcall
    | @configureEndpoints d d' err n htype hfind hreceived _ hinit _ _ _ hn =>
      exact hrange d err d' htype hfind hreceived hinit n hn
  · intro d err d' htype hfind hreceived hinit ctx speed
    have hends := hrange d err d' htype hfind hreceived hinit
    refine ⟨fun hrings => configureEndpointContexts_isSome hends hrings, fun d'' hcontexts => ?_⟩
    obtain ⟨ctx', rings, rfl, hslot, hdefault, hring⟩ :=
      configureEndpointContexts_inRange (d := { d' with inputContext := ctx }) hends hcontexts
    exact ⟨hslot, hdefault, hring⟩

end Controller

/-! A keyboard on port 1, with an endpoint of some address. -/

/-- What the keyboard answers with. -/
def keyboardAnswerWith (address : BitVec 8) (i : ℕ) : BitVec 8 :=
  [9#8, 2#8, 34#8, 0#8, 1#8, 1#8, 0#8, 160#8, 50#8,
    9#8, 4#8, 0#8, 0#8, 1#8, 3#8, 1#8, 1#8, 0#8,
    9#8, 33#8, 17#8, 1#8, 0#8, 1#8, 34#8, 63#8, 0#8,
    7#8, 5#8, address, 3#8, 8#8, 0#8, 10#8].getD i 0#8

/-- Its device descriptor. -/
def deviceAnswer (i : ℕ) : BitVec 8 := [18#8, 1#8].getD i 0#8

def onePortConnected (port : BitVec 8) : BitVec 32 := if port = 1#8 then 0x200403#32 else 0#32

/-- The machine when a transfer completes: its last TRB with an event, its setup stage, and the
bytes of the buffer. -/
def transferMachine (pointer : BitVec 64) (issuer setup : TRB) (bytes : ℕ → BitVec 8) :
    Machine where
  portsc := onePortConnected
  trbAt := fun a => if a = pointer then issuer else setup
  byteAt := fun a => bytes (a.toNat - 0x3000)
  slotContext := fun _ => ⟨0#20, 1#4, 0#5, 1#8⟩
  newDevice := none
  newRing := fun _ => some 0x6000#64
  newDriver := some 0x5000#64
  fuel := 8

def transferEvent (pointer : BitVec 64) (residual : BitVec 24) : TRB :=
  ![pointer.setWidth 32, (pointer >>> 32).setWidth 32, 1#8 ++ residual,
    1#8 ++ 0#3 ++ 1#5 ++ TransferEventTRB.type ++ 0#10]

/-- A descriptor was read. -/
def descriptorMachine (pointer : BitVec 64) (descType : BitVec 8) (bytes : ℕ → BitVec 8) :
    Machine :=
  transferMachine pointer (DataStageTRB.make 0x3000#64 256 true)
    (SetupStageTRB.make (.getDescriptor descType 0#8 256) SetupStageTRB.kInDataStage) bytes

/-- A request without data is completed. -/
def statusMachine (pointer : BitVec 64) (setupData : SetupData) : Machine :=
  transferMachine pointer (StatusStageTRB.make true true)
    (SetupStageTRB.make setupData SetupStageTRB.kNoDataStage) fun _ => 0#8

def commandMachine : TRB → Machine := exampleMachine onePortConnected

/-- The calls up to the Address Device command. -/
def keyboardAddressing : Option Controller := do
  let c := ((Controller.initializeWith 4#8 0x1000#64 none).configurePort (commandMachine 0) 1#8).2
  let (_, c) ← c.onEvent (commandMachine 0) (portStatusChangeEvent 1#8)
  let (_, c) ← c.onEvent (commandMachine EnableSlotCommandTRB.make) (commandCompletionEvent 1#8)
  some c

/-- Then up to the request that sets the configuration. -/
def keyboardConfiguring (address : BitVec 8) : Option Controller := do
  let c ← keyboardAddressing
  let (_, c) ← c.onEvent (commandMachine (AddressDeviceCommandTRB.make 0x2000#64 1#8))
    (commandCompletionEvent 1#8)
  let (_, c) ← c.onEvent (descriptorMachine 0x4010#64 descriptor.kDevice deviceAnswer)
    (transferEvent 0x4010#64 238#24)
  let (_, c) ← c.onEvent
    (descriptorMachine 0x4040#64 descriptor.kConfiguration (keyboardAnswerWith address))
    (transferEvent 0x4040#64 222#24)
  some c

/-- Then up to the request of the driver. -/
def keyboardProtocol (address : BitVec 8) : Option Controller := do
  let c ← keyboardConfiguring address
  let (_, c) ← c.onEvent (statusMachine 0x4070#64 (.setConfiguration 1#8))
    (transferEvent 0x4070#64 0#24)
  let (_, c) ← c.onEvent (commandMachine (ConfigureEndpointCommandTRB.make 0x2000#64 1#8))
    (commandCompletionEvent 1#8)
  some c

open Controller Device

section Keyboard

variable {P : Machine → Controller → TRB → Prop} {c : Controller} {address : BitVec 8}

theorem genuine_transfer {trb issuer setup : TRB} {pointer : BitVec 64} {bytes : ℕ → BitVec 8}
    (hpointer : TransferEventTRB.pointer trb = pointer)
    (htype : trb.trbType = TransferEventTRB.type)
    (hissuer : issuer.trbType ≠ NormalTRB.type) :
    Genuine (transferMachine pointer issuer setup bytes) c trb where
  normal := by
    intro _ d _ hnormal
    have hat : (transferMachine pointer issuer setup bytes).trbAt (TransferEventTRB.pointer trb) =
        issuer := if_pos hpointer
    rw [hat] at hnormal
    exact absurd hnormal hissuer
  address := fun hcommand => by
    rw [htype] at hcommand
    exact absurd hcommand (by decide)

theorem usableAnswers_of_type {m : Machine} {trb : TRB} (h : trb.trbType ≠ TransferEventTRB.type) :
    UsableAnswers m c trb := fun htype => absurd htype h

theorem keyboardAddressing_reachable (hP : ∀ m c trb, UsableAnswers m c trb → P m c trb)
    (h : keyboardAddressing = some c) : (endpointSystem P 4#8 0x1000#64 none).Reachable c := by
  unfold keyboardAddressing at h
  simp only [Option.bind_eq_bind, Option.bind_eq_some_iff] at h
  obtain ⟨⟨err₁, c₁⟩, hreset, ⟨err₂, c₂⟩, henabled, h⟩ := h
  obtain rfl := Option.some.inj h
  have hstart : (endpointSystem P 4#8 0x1000#64 none).Reachable
      (.initializeWith 4#8 0x1000#64 none) := .start rfl
  have hport := hstart.next (.configurePort (commandMachine 0) 1#8)
  have hevent := hport.next (.processEvent
    ⟨fun htype => absurd htype (by decide), fun htype => absurd htype (by decide)⟩
    (hP _ _ _ (usableAnswers_of_type (by decide))) hreset)
  exact hevent.next (.processEvent
    ⟨fun htype => absurd htype (by decide), fun _ haddress => absurd haddress (by decide)⟩
    (hP _ _ _ (usableAnswers_of_type (by decide))) henabled)

/-- The device that gets the address is new. -/
theorem keyboardAddressing_new (h : keyboardAddressing = some c) :
    ∀ d, c.findBySlot (CommandCompletionEventTRB.slotId (commandCompletionEvent 1#8)) = some d →
      d.initializePhase = 0 := by
  have hphase : (keyboardAddressing.bind fun c => c.findBySlot 1#8).map (·.initializePhase) =
      some 0 := by decide +kernel
  have hslot : CommandCompletionEventTRB.slotId (commandCompletionEvent 1#8) = 1#8 := by decide
  intro d hd
  rw [hslot] at hd
  rw [h, Option.bind_some, hd, Option.map_some] at hphase
  exact Option.some.inj hphase

theorem keyboardConfiguring_reachable (hP : ∀ m c trb, UsableAnswers m c trb → P m c trb)
    (hconf : ∀ c, P (descriptorMachine 0x4040#64 descriptor.kConfiguration
      (keyboardAnswerWith address)) c (transferEvent 0x4040#64 222#24))
    (h : keyboardConfiguring address = some c) :
    (endpointSystem P 4#8 0x1000#64 none).Reachable c := by
  unfold keyboardConfiguring at h
  simp only [Option.bind_eq_bind, Option.bind_eq_some_iff] at h
  obtain ⟨c₀, hc₀, ⟨err₁, c₁⟩, haddressed, ⟨err₂, c₂⟩, hdevice, ⟨err₃, c₃⟩, hconfiguration, h⟩ := h
  obtain rfl := Option.some.inj h
  have hreach := keyboardAddressing_reachable hP hc₀
  have hevent₁ := hreach.next (.processEvent
    ⟨fun htype => absurd htype (by decide), fun _ _ => keyboardAddressing_new hc₀⟩
    (hP _ _ _ (usableAnswers_of_type (by decide))) haddressed)
  have hevent₂ := hevent₁.next (.processEvent
    (genuine_transfer (by decide) (by decide) (by decide)) (hP _ _ _ ?_) hdevice)
  · exact hevent₂.next (.processEvent (genuine_transfer (by decide) (by decide) (by decide))
      (hconf _) hconfiguration)
  · -- a device descriptor is not a configuration
    intro _ d _
    refine usableAnswer_of_data fun buf hbuf htype => ?_
    obtain ⟨-, rfl⟩ := bytesAt_eq_some hbuf
    exact absurd htype (by decide)

/-- What is used when the configuration is set. -/
def keyboardContextUse (address : BitVec 8) : Option ((Bool × Bool × ConfigPhase) × ℕ × ℕ) := do
  let c ← keyboardConfiguring address
  let d ← c.findBySlot 1#8
  let (err, d') ← d.onTransferEventReceived (statusMachine 0x4070#64 (.setConfiguration 1#8))
    (transferEvent 0x4070#64 0#24)
  some ((err.failed, d'.isInitialized, c.portConfigPhase 1#8), d'.numEpConfigs,
    (d'.epConfigs 0).epId.address)

theorem usesIndex_of_contextUse {dci : ℕ}
    (h : keyboardContextUse address = some ((false, true, .kInitializingDevice), 1, dci)) :
    ∃ c, keyboardConfiguring address = some c ∧
      UsesIndex (statusMachine 0x4070#64 (.setConfiguration 1#8)) c
        (transferEvent 0x4070#64 0#24) dci := by
  unfold keyboardContextUse at h
  simp only [Option.bind_eq_bind, Option.bind_eq_some_iff, Option.some.injEq, Prod.mk.injEq] at h
  obtain ⟨c, hc, d, hd, ⟨err, d'⟩, hreceived, ⟨herr, hinit, hphase⟩, hnum, rfl⟩ := h
  have hslot : TransferEventTRB.slotId (transferEvent 0x4070#64 0#24) = 1#8 := by decide
  refine ⟨c, hc, .configureEndpoints (by decide) (by rw [hslot]; exact hd) hreceived herr hinit ?_
    (by decide) (by decide) (by rw [hnum]; decide)⟩
  exact hphase

/-- The endpoint 0 is the default pipe, of which the context and the ring are replaced; and a
keyboard with no endpoint that sends to the host makes its driver read the index 0. -/
theorem endpointIndex_outOfRange :
    (∃ c, (endpointSystem (fun _ _ _ => True) 4#8 0x1000#64 none).Reachable c ∧
      ∃ m trb, Genuine m c trb ∧ UsesIndex m c trb 1) ∧
    ∃ c, (endpointSystem (fun _ _ _ => True) 4#8 0x1000#64 none).Reachable c ∧
      ∃ m trb, Genuine m c trb ∧ UsesIndex m c trb 0 := by
  constructor
  -- the keyboard has the endpoint address 0x80, which is number 0
  · have huse : keyboardContextUse 0x80#8 = some ((false, true, .kInitializingDevice), 1, 1) := by
      decide +kernel
    obtain ⟨c, hc, huse⟩ := usesIndex_of_contextUse huse
    exact ⟨c, keyboardConfiguring_reachable (fun _ _ _ _ => trivial) (fun _ => trivial) hc, _, _,
      genuine_transfer (by decide) (by decide) (by decide), huse⟩
  -- the keyboard has the endpoint address 0x01, which only receives
  · have hcall : ((keyboardProtocol 0x01#8).bind fun c => c.findBySlot 1#8).bind
        (fun d => d.interruptEndpoint (statusMachine 0x4090#64 (.setProtocol 0#8))
          (transferEvent 0x4090#64 0#24)) = some ⟨0⟩ := by
      decide +kernel
    simp only [Option.bind_eq_some_iff] at hcall
    obtain ⟨d, ⟨c, hc, hd⟩, hcall⟩ := hcall
    have hslot : TransferEventTRB.slotId (transferEvent 0x4090#64 0#24) = 1#8 := by decide
    have huse : UsesIndex (statusMachine 0x4090#64 (.setProtocol 0#8)) c
        (transferEvent 0x4090#64 0#24) (EndpointID.address ⟨0⟩) :=
      .interruptIn (by decide) (by rw [hslot]; exact hd) hcall
    refine ⟨c, ?_, _, _, genuine_transfer (by decide) (by decide) (by decide), huse⟩
    unfold keyboardProtocol at hc
    simp only [Option.bind_eq_bind, Option.bind_eq_some_iff] at hc
    obtain ⟨c₀, hc₀, ⟨err₁, c₁⟩, hset, ⟨err₂, c₂⟩, hconfigured, hc⟩ := hc
    obtain rfl := Option.some.inj hc
    have hreach := keyboardConfiguring_reachable (P := fun _ _ _ => True) (fun _ _ _ _ => trivial)
      (fun _ => trivial) hc₀
    have hevent := hreach.next (.processEvent
      (genuine_transfer (by decide) (by decide) (by decide)) trivial hset)
    exact hevent.next (.processEvent
      ⟨fun htype => absurd htype (by decide), fun _ haddress => absurd haddress (by decide)⟩
      trivial hconfigured)

open ConfigurationParser in
/-- The keyboard has one endpoint, behind its HID descriptor. -/
theorem usableEndpoints_keyboard :
    UsableEndpoints (fun i => (descriptorMachine 0x4040#64 descriptor.kConfiguration
      (keyboardAnswerWith 0x81#8)).byteAt (0x3000#64 + BitVec.ofNat 64 i)) 34 := by
  generalize hbuf : (fun i : ℕ => (descriptorMachine 0x4040#64 descriptor.kConfiguration
    (keyboardAnswerWith 0x81#8)).byteAt (0x3000#64 + BitVec.ofNat 64 i)) = buf
  have hfirst : FirstDriver buf 34 0 9 := by
    subst hbuf
    exact ⟨passed_zero, by decide, by decide, by decide⟩
  constructor
  · intro k p hp e he
    obtain ⟨rfl, rfl⟩ := hp.unique hfirst
    have hlt : e < 2 := by
      by_contra hge
      have hmono := endpointCount_mono buf 9 (Nat.le_of_not_lt hge)
      have hwanted := he.wanted
      have hcount : endpointCount buf 9 2 = numEndpoints buf 9 := by
        subst hbuf
        decide
      omega
    have htype := he.type
    subst hbuf
    -- the two descriptors behind the interface, HID and endpoint
    obtain rfl | rfl : e = 0 ∨ e = 1 := by omega
    · exact absurd htype (by decide)
    · decide
  · intro k p hp _
    obtain ⟨rfl, rfl⟩ := hp.unique hfirst
    subst hbuf
    exact ⟨1, ⟨by decide, by decide⟩, by decide⟩

/-- A keyboard with the endpoint 1, when its configuration is set. -/
theorem endpointIndex_inRange_keyboard :
    ∃ c, (endpointSystem UsableAnswers 4#8 0x1000#64 none).Reachable c ∧
      UsesIndex (statusMachine 0x4070#64 (.setConfiguration 1#8)) c
        (transferEvent 0x4070#64 0#24) 3 ∧
      ∀ dci, UsesIndex (statusMachine 0x4070#64 (.setConfiguration 1#8)) c
        (transferEvent 0x4070#64 0#24) dci → 2 ≤ dci ∧ dci ≤ 31 := by
  have huse : keyboardContextUse 0x81#8 = some ((false, true, .kInitializingDevice), 1, 3) := by
    decide +kernel
  obtain ⟨c, hc, huse⟩ := usesIndex_of_contextUse huse
  have hreach := keyboardConfiguring_reachable (P := UsableAnswers) (fun _ _ _ h => h)
    (fun c _ d _ => usableAnswer_of_data fun buf hbuf _ => by
      obtain ⟨-, rfl⟩ := bytesAt_eq_some hbuf
      exact usableEndpoints_keyboard) hc
  refine ⟨c, hreach, huse, (endpointIndex_inRange hreach
    (genuine_transfer (by decide) (by decide) (by decide)) fun _ d _ =>
      usableAnswer_of_data fun buf hbuf _ => ?_).1⟩
  exact absurd rfl (bytesAt_eq_some hbuf).1

end Keyboard

end TommyOS.Usb
