import TommyOS.Usb.HandlerCalls

/-!
# From a control request back to its issuer

An initialized device finds the class driver that issued a request again by looking its setup
data up in `event_waiters_`, which has four slots that are never given back. Here are the runs
of requests that are completed one by one, and which of them return to their issuer.
-/

namespace TommyOS.Usb

namespace Device

/-- The class driver that `OnControlCompleted` of an initialized device calls, if there is one. -/
def waiter (d : Device) (setupData : SetupData) : Option ℕ := d.eventWaiters.get setupData

variable {m : Machine} {d d' : Device} {err : Error} {setupData : SetupData} {buf : BitVec 64}
  {len : ℤ}

theorem onControlCompleted_waiter (hinit : d.isInitialized = true) :
    d.onControlCompleted m setupData buf len =
      match d.waiter setupData with
      | some w => d.driverOnControlCompleted w
      | none => some (.kNoWaiter, d) := by
  unfold onControlCompleted
  rw [if_pos hinit]
  rfl

/-- What a request or a handler leaves alone. -/
structure SameWaiters (d d' : Device) : Prop where
  isInitialized : d'.isInitialized = d.isInitialized
  eventWaiters : d'.eventWaiters = d.eventWaiters

theorem SameWaiters.refl (d : Device) : SameWaiters d d := ⟨rfl, rfl⟩

theorem interruptIn_sameWaiters {epId : EndpointID} {address : BitVec 64} {size : ℕ}
    (h : d.interruptIn epId address size = some (err, d')) : SameWaiters d d' := by
  rcases interruptIn_cases h with rfl | ⟨_, _, _, _, _, _, rfl⟩
  · exact .refl d'
  · exact ⟨rfl, rfl⟩

/-- The handler of an initialized device issues no control request. -/
theorem onControlCompleted_sameWaiters (hinit : d.isInitialized = true)
    (h : d.onControlCompleted m setupData buf len = some (err, d')) : SameWaiters d d' := by
  rw [onControlCompleted_waiter hinit] at h
  split at h
  · next w _ =>
    unfold driverOnControlCompleted at h
    simp only [Option.bind_eq_bind, Option.bind_eq_some_iff] at h
    obtain ⟨driver, -, h⟩ := h
    split at h
    · obtain ⟨hinit', hwaiters⟩ := interruptIn_sameWaiters h
      exact ⟨hinit', hwaiters⟩
    · rw [← (Prod.mk.inj (Option.some.inj h)).2]
      exact .refl d
  · rw [← (Prod.mk.inj (Option.some.inj h)).2]
    exact .refl d

/-- A request of a class driver. -/
theorem controlTransfer_waiters {dirIn : Bool} {epId : EndpointID} {size w : ℕ}
    (h : d.controlTransfer dirIn epId setupData buf size (some w) = some (err, d')) :
    d'.isInitialized = d.isInitialized ∧ d'.eventWaiters = d.eventWaiters.put setupData w := by
  unfold controlTransfer at h
  simp only [Option.bind_eq_bind] at h
  split at h
  · rw [← (Prod.mk.inj (Option.some.inj h)).2]
    exact ⟨rfl, rfl⟩
  · rw [Option.bind_eq_some_iff] at h
    obtain ⟨ring, -, h⟩ := h
    split at h
    · rw [← (Prod.mk.inj (Option.some.inj h)).2]
      exact ⟨rfl, rfl⟩
    · rw [Option.bind_eq_some_iff] at h
      obtain ⟨stages, -, h⟩ := h
      rw [← (Prod.mk.inj (Option.some.inj h)).2]
      exact ⟨rfl, rfl⟩

end Device

/-! ## Runs of requests -/

/-- A control request with the class driver that issued it. -/
abbrev IssuedRequest := SetupData × ℕ

/-- An initialized device, the request that it has not completed, and all requests so far, this
one included. -/
structure RequestState where
  device : Device
  pending : Option IssuedRequest
  history : List IssuedRequest

/-- A request is issued when none is pending, or the pending one is completed, or the device does
something that is no control request of a class driver. -/
inductive RequestStep (s : RequestState) : RequestState → Prop where
  | issued {dirIn : Bool} {epId : EndpointID} {setupData : SetupData} {buf : BitVec 64}
      {len w : ℕ} {d' : Device} : s.pending = none →
      s.device.controlTransfer dirIn epId setupData buf len (some w) = some (.kSuccess, d') →
      RequestStep s ⟨d', some (setupData, w), s.history ++ [(setupData, w)]⟩
  | completed {m : Machine} {setupData : SetupData} {w : ℕ} {buf : BitVec 64} {len : ℤ}
      {err : Error} {d' : Device} : s.pending = some (setupData, w) →
      s.device.onControlCompleted m setupData buf len = some (err, d') →
      RequestStep s { s with device := d', pending := none }
  | other {d' : Device} : s.device.SameWaiters d' → RequestStep s { s with device := d' }

/-- The runs of a device that has just been initialized. -/
def requestSystem : TransitionSystem RequestState where
  init s := s.device.isInitialized = true ∧ s.device.eventWaiters = .empty 4 ∧
    s.pending = none ∧ s.history = []
  step := RequestStep

/-- The map holds the first four requests. -/
structure RequestInvariant (s : RequestState) : Prop where
  isInitialized : s.device.isInitialized = true
  eventWaiters : s.device.eventWaiters = .ofPuts 4 s.history

theorem requestInvariant_of_reachable {s : RequestState} (h : requestSystem.Reachable s) :
    RequestInvariant s := by
  apply h.invariant (P := RequestInvariant)
  · rintro s ⟨hinit, hwaiters, -, hhistory⟩
    refine ⟨hinit, ?_⟩
    rw [hwaiters, hhistory, ArrayMap.ofPuts_nil]
  · intro s s' _ ih hstep
    cases hstep with
    | issued _ hcall =>
      obtain ⟨hinit, hwaiters⟩ := Device.controlTransfer_waiters hcall
      refine ⟨hinit.trans ih.isInitialized, ?_⟩
      rw [hwaiters, ih.eventWaiters, ArrayMap.put_ofPuts]
    | completed _ hcall =>
      have hsame := Device.onControlCompleted_sameWaiters ih.isInitialized hcall
      exact ⟨hsame.isInitialized.trans ih.isInitialized,
        hsame.eventWaiters.trans ih.eventWaiters⟩
    | other hsame =>
      exact ⟨hsame.isInitialized.trans ih.isInitialized,
        hsame.eventWaiters.trans ih.eventWaiters⟩

/-! ## Five requests -/

/-- The requests of a driver for the boot protocol of one interface after the other. -/
def protocolRequest (n : ℕ) : IssuedRequest := (.setProtocol (BitVec.ofNat 8 n), 0)

/-- A device with one driver after `n` of these requests. -/
def requested : ℕ → Device
  | 0 => { Device.new 1#8 ⟨0x10000#64, 0x20000#64⟩ with
      isInitialized := true
      drivers := [.new 0x30000#64 0#8 8]
      transferRings := fun i => if i = 0 then some (.initializeWith 0x1000#64 32) else none }
  | n + 1 =>
    match (requested n).controlOut kDefaultControlPipeID (protocolRequest n).1 0#64 0
      (some (protocolRequest n).2) with
    | some (_, d) => d
    | none => requested n

theorem requested_succ {n : ℕ} (hn : n < 5) :
    (requested n).controlTransfer false kDefaultControlPipeID (protocolRequest n).1 0#64 0
      (some (protocolRequest n).2) = some (.kSuccess, requested (n + 1)) := by
  have hcall : ∀ n < 5, ((requested n).controlOut kDefaultControlPipeID (protocolRequest n).1
      0#64 0 (some (protocolRequest n).2)).map Prod.fst = some .kSuccess := by decide +kernel
  obtain ⟨⟨err, d⟩, hsome, rfl⟩ := Option.map_eq_some_iff.mp (hcall n hn)
  have hnext : requested (n + 1) = d := by
    rw [requested, hsome]
  rw [hnext]
  exact hsome

/-- Every request is completed before the next one: the driver has nothing to do then. -/
theorem reachable_requested {n : ℕ} (hn : n ≤ 4) :
    requestSystem.Reachable ⟨requested n, none, (List.range n).map protocolRequest⟩ := by
  induction n with
  | zero => exact .start ⟨rfl, rfl, rfl, rfl⟩
  | succ n ih =>
    have hissued := (ih (by omega)).next (.issued rfl (requested_succ (by omega)))
    have hinit := (requestInvariant_of_reachable hissued).isInitialized
    have hwaiter : ∀ n < 4, (requested (n + 1)).waiter (protocolRequest n).1 = some 0 := by
      decide +kernel
    have hphase : ∀ n < 4, (requested (n + 1)).drivers[0]?.map (·.initializePhase) = some 0 := by
      decide +kernel
    obtain ⟨w, hw, hphase⟩ := Option.map_eq_some_iff.mp (hphase n (by omega))
    let m : Machine := ⟨fun _ => 0#32, fun _ => 0, fun _ => 0#8,
      fun _ => ⟨0#20, 0#4, 0#5, 0#8⟩, none, fun _ => none, none, 0⟩
    have hcompleted : (requested (n + 1)).onControlCompleted m (protocolRequest n).1 0#64 0 =
        some (.kNotImplemented, requested (n + 1)) := by
      rw [Device.onControlCompleted_waiter hinit, hwaiter n (by omega)]
      unfold Device.driverOnControlCompleted
      simp only [hw, Option.bind_eq_bind, Option.bind_some, hphase]
      rfl
    rw [List.range_succ, List.map_append]
    exact hissued.next (.completed rfl hcompleted)

/-! ## Which requests return to their issuer -/

/-- In every run a completed request goes to its issuer exactly when it is one of the first four
requests of the device, or one of these had its setup data, and the first of them that did had
its issuer. -/
theorem waiter_eq_issuer_iff {s : RequestState} (h : requestSystem.Reachable s)
    {setupData : SetupData} {w : ℕ} (hpending : s.pending = some (setupData, w)) :
    s.device.waiter setupData = some w ↔
      (s.history.take 4).find? (fun e => e.1 = setupData) = some (setupData, w) := by
  unfold Device.waiter
  rw [(requestInvariant_of_reachable h).eventWaiters, ArrayMap.get_ofPuts,
    Option.map_eq_some_iff]
  constructor
  · rintro ⟨⟨key, value⟩, hfind, rfl⟩
    have hkey : key = setupData := by simpa using List.find?_some hfind
    rw [hfind, hkey]
  · intro hfind
    exact ⟨_, hfind, rfl⟩

/-- After four requests the second one is issued once more. -/
theorem waiter_eq_issuer_repeated :
    ∃ d, requestSystem.Reachable ⟨d, some (protocolRequest 1),
        (List.range 4).map protocolRequest ++ [protocolRequest 1]⟩ ∧
      d.waiter (.setProtocol 1#8) = some 0 := by
  have hcall : ((requested 4).controlOut kDefaultControlPipeID (protocolRequest 1).1 0#64 0
      (some (protocolRequest 1).2)).map Prod.fst = some .kSuccess := by decide +kernel
  obtain ⟨⟨err, d⟩, hsome, rfl⟩ := Option.map_eq_some_iff.mp hcall
  have hreach := (reachable_requested (n := 4) (by decide)).next (.issued rfl hsome)
  have hfirst : ((((List.range 4).map protocolRequest ++ [protocolRequest 1]).take 4).find?
      fun e => e.1 = .setProtocol 1#8) = some (.setProtocol 1#8, 0) := by decide
  exact ⟨d, hreach, (waiter_eq_issuer_iff hreach rfl).mpr hfirst⟩

/-- The fifth request has no slot left. -/
theorem fifth_request_no_waiter :
    ∃ s, requestSystem.Reachable s ∧ s.pending = some (.setProtocol 4#8, 0) ∧
      ∀ m buf len, s.device.onControlCompleted m (.setProtocol 4#8) buf len =
        some (.kNoWaiter, s.device) := by
  have hreach := (reachable_requested (n := 4) (by decide)).next
    (.issued rfl (requested_succ (by decide)))
  have hwaiter : (requested 5).waiter (.setProtocol 4#8) = none := by decide +kernel
  refine ⟨_, hreach, rfl, fun m buf len => ?_⟩
  rw [Device.onControlCompleted_waiter (requestInvariant_of_reachable hreach).isInitialized,
    hwaiter]

end TommyOS.Usb
