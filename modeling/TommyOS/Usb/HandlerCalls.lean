import TommyOS.Usb.ControlTransfers

/-!
# The calls of the handlers

What a handler of a device does to the rings and the maps is at most one transfer of its own, so
whole events are steps of the runs of `transferSystem`: the completion first, then what its
handler does.
-/

namespace TommyOS.Usb

namespace Device

/-- The same object, with its rings and maps of transfers as they were. -/
structure SameTransfers (d d' : Device) : Prop where
  object : d'.inputContextAddress = d.inputContextAddress
  rings : d'.transferRings = d.transferRings
  stages : d'.setupStageMap = d.setupStageMap
  waiters : d'.eventWaiters = d.eventWaiters

variable {m : Machine} {d d' d'' : Device} {err : Error} {buf : ℕ → BitVec 8} {len : ℤ}

theorem SameTransfers.refl (d : Device) : SameTransfers d d := ⟨rfl, rfl, rfl, rfl⟩

theorem SameTransfers.trans (h : SameTransfers d d') (h' : SameTransfers d' d'') :
    SameTransfers d d'' :=
  ⟨h'.object.trans h.object, h'.rings.trans h.rings, h'.stages.trans h.stages,
    h'.waiters.trans h.waiters⟩

/-- A handler does at most one transfer, after changes that have nothing to do with it. -/
inductive HandlerCall (d : Device) : Device → Prop where
  | silent {d' : Device} : SameTransfers d d' → HandlerCall d d'
  | control {d₁ d' : Device} {dirIn : Bool} {epId : EndpointID} {setupData : SetupData}
      {address : BitVec 64} {size : ℕ} {issuer : Option ℕ} {err : Error} :
      d₁.controlTransfer dirIn epId setupData address size issuer = some (err, d') →
      SameTransfers d d₁ → HandlerCall d d'
  | interrupt {d₁ d' : Device} {epId : EndpointID} {address : BitVec 64} {size : ℕ}
      {err : Error} : d₁.interruptIn epId address size = some (err, d') →
      SameTransfers d d₁ → HandlerCall d d'

theorem HandlerCall.of_error {e : Error} (h : some (e, d) = some (err, d')) : HandlerCall d d' := by
  rw [← (Prod.mk.inj (Option.some.inj h)).2]
  exact .silent (.refl d)

/-- A transfer leaves all but the rings and the maps alone. -/
theorem HandlerCall.object (h : HandlerCall d d') :
    d'.inputContextAddress = d.inputContextAddress := by
  cases h with
  | silent hsame => exact hsame.object
  | control hcall hsame =>
    rcases controlTransfer_cases hcall with ⟨-, _, rfl⟩ | ⟨-, _, _, _, _, _, -, -, rfl⟩
    · exact hsame.object
    · exact hsame.object
  | interrupt hcall hsame =>
    rcases interruptIn_cases hcall with rfl | ⟨_, _, _, -, -, -, rfl⟩
    · exact hsame.object
    · exact hsame.object

/-! ## The parser -/

/-- The parser leaves the transfers alone. -/
theorem readEndpoints_same {driver numEndpoints fuel p : ℕ}
    (h : readEndpoints buf len driver numEndpoints fuel p d = some d') : SameTransfers d d' := by
  induction fuel generalizing p d with
  | zero => exact absurd h (by simp [readEndpoints])
  | succ fuel ih =>
    unfold readEndpoints at h
    split at h
    · simp only at h
      split at h
      · split at h
        · split at h
          · obtain ⟨hobject, hrings, hstages, hwaiters⟩ := ih h
            exact ⟨hobject, hrings, hstages, hwaiters⟩
          · exact absurd h (by simp)
        · exact ih h
      · exact absurd h (by simp)
    · rw [← Option.some.inj h]
      exact .refl d

/-- So does a new class driver. -/
theorem newClassDriver_same {p : ℕ} {driver : Option ℕ}
    (h : d.newClassDriver m buf p = some (driver, d')) : SameTransfers d d' := by
  unfold newClassDriver at h
  split at h
  · rw [← (Prod.mk.inj (Option.some.inj h)).2]
    exact .refl d
  · simp only [Option.bind_eq_bind, Option.bind_eq_some_iff, Option.some.injEq,
      Prod.mk.injEq] at h
    obtain ⟨_, _, _, rfl⟩ := h
    exact ⟨rfl, rfl, rfl, rfl⟩

/-- So does the search for an interface. -/
theorem readInterfaces_same {fuel p : ℕ} {driver : Option ℕ}
    (h : readInterfaces m buf len fuel p d = some (driver, d')) : SameTransfers d d' := by
  induction fuel generalizing p d with
  | zero => exact absurd h (by simp [readInterfaces])
  | succ fuel ih =>
    unfold readInterfaces at h
    simp only [Option.bind_eq_bind, Option.bind_eq_some_iff] at h
    obtain ⟨next, -, h⟩ := h
    split at h
    · rw [← (Prod.mk.inj (Option.some.inj h)).2]
      exact .refl d
    · simp only [Option.bind_eq_some_iff] at h
      obtain ⟨⟨found, d₁⟩, hnew, h⟩ := h
      have hsame := newClassDriver_same hnew
      split at h
      · next heq =>
        obtain ⟨-, rfl⟩ := Prod.mk.inj heq
        exact hsame.trans (ih h)
      · next heq =>
        obtain ⟨-, rfl⟩ := Prod.mk.inj heq
        simp only [Option.bind_eq_some_iff, Option.some.injEq, Prod.mk.injEq] at h
        obtain ⟨d₂, hread, -, rfl⟩ := h
        obtain ⟨hobject, hrings, hstages, hwaiters⟩ := readEndpoints_same hread
        exact hsame.trans ⟨hobject, hrings, hstages, hwaiters⟩

/-- So does a driver that gets its endpoints. -/
theorem setEndpoints_same {n : ℕ} (h : d.setEndpoints n = some d') : SameTransfers d d' := by
  induction n generalizing d' with
  | zero =>
    rw [← Option.some.inj h]
    exact .refl d
  | succ n ih =>
    unfold setEndpoints at h
    simp only [Option.bind_eq_bind, Option.bind_eq_some_iff, Option.some.injEq] at h
    obtain ⟨d₁, hset, _, _, _, _, rfl⟩ := h
    exact (ih hset).trans ⟨rfl, rfl, rfl, rfl⟩

/-! ## The handlers -/

/-- The second request for a descriptor is one control transfer. -/
theorem initializePhase1_call (h : d.initializePhase1 buf = some (err, d')) :
    HandlerCall d d' := by
  unfold initializePhase1 getDescriptor controlIn at h
  exact .control h ⟨rfl, rfl, rfl, rfl⟩

/-- The configuration is set by one control transfer. -/
theorem initializePhase2_call (h : d.initializePhase2 m buf len = some (err, d')) :
    HandlerCall d d' := by
  unfold initializePhase2 at h
  split at h
  · exact .of_error h
  · simp only [Option.bind_eq_bind, Option.bind_eq_some_iff] at h
    obtain ⟨⟨driver, d₁⟩, hread, h⟩ := h
    have hsame := readInterfaces_same hread
    split at h
    · next heq =>
      obtain ⟨-, rfl⟩ := Prod.mk.inj heq
      rw [← (Prod.mk.inj (Option.some.inj h)).2]
      exact .silent hsame
    · next heq =>
      obtain ⟨-, rfl⟩ := Prod.mk.inj heq
      unfold setConfiguration controlOut at h
      exact .control h (hsame.trans ⟨rfl, rfl, rfl, rfl⟩)

/-- No transfer is issued here. -/
theorem initializePhase3_call (h : d.initializePhase3 = some (err, d')) : HandlerCall d d' := by
  unfold initializePhase3 at h
  simp only [Option.bind_eq_bind, Option.bind_eq_some_iff, Option.some.injEq, Prod.mk.injEq] at h
  obtain ⟨d₁, hset, -, rfl⟩ := h
  exact .silent ((setEndpoints_same hset).trans ⟨rfl, rfl, rfl, rfl⟩)

/-- The class driver asks for its first report. -/
theorem driverOnControlCompleted_call {i : ℕ}
    (h : d.driverOnControlCompleted i = some (err, d')) : HandlerCall d d' := by
  unfold driverOnControlCompleted at h
  simp only [Option.bind_eq_bind, Option.bind_eq_some_iff] at h
  obtain ⟨w, -, h⟩ := h
  split at h
  · exact .interrupt h ⟨rfl, rfl, rfl, rfl⟩
  · exact .of_error h

/-- Whoever has waited for a control transfer issues one call at most. -/
theorem onControlCompleted_call {setupData : SetupData} {address : BitVec 64}
    (h : d.onControlCompleted m setupData address len = some (err, d')) : HandlerCall d d' := by
  unfold onControlCompleted at h
  -- an initialized device asks its class driver, any other goes on with its phase
  split at h
  · split at h
    · exact driverOnControlCompleted_call h
    · exact .of_error h
  · split at h
    · split at h
      · simp only [Option.bind_eq_bind, Option.bind_eq_some_iff] at h
        obtain ⟨buf8, -, h⟩ := h
        split at h
        · exact initializePhase1_call h
        · exact .of_error h
      · exact .of_error h
    · split at h
      · split at h
        · simp only [Option.bind_eq_bind, Option.bind_eq_some_iff] at h
          obtain ⟨buf8, -, h⟩ := h
          split at h
          · exact initializePhase2_call h
          · exact .of_error h
        · exact .of_error h
      · split at h
        · split at h
          · exact initializePhase3_call h
          · exact .of_error h
        · exact .of_error h

/-- A report is followed by the next interrupt transfer. -/
theorem onInterruptCompleted_call {epId : EndpointID}
    (h : d.onInterruptCompleted m epId len = some (err, d')) : HandlerCall d d' := by
  unfold onInterruptCompleted driverOnInterruptCompleted at h
  split at h
  · simp only [Option.bind_eq_bind, Option.bind_eq_some_iff] at h
    obtain ⟨w, -, h⟩ := h
    split at h
    · split at h
      · exact .interrupt h ⟨rfl, rfl, rfl, rfl⟩
      · exact absurd h (by simp)
    · exact .of_error h
  · exact .of_error h

/-- What an event does behind its dispatch. -/
theorem handle_call {call : Dispatch} (h : handle m (call, d) = some (err, d')) :
    HandlerCall d d' := by
  cases call with
  | error e => exact .of_error h
  | onInterruptCompleted epId len => exact onInterruptCompleted_call h
  | onControlCompleted setupData address len => exact onControlCompleted_call h

/-! ## The object -/

/-- A device stays where it is. -/
theorem onTransferEventReceived_object {trb : TRB}
    (h : d.onTransferEventReceived m trb = some (err, d')) :
    d'.inputContextAddress = d.inputContextAddress := by
  rw [onTransferEventReceived] at h
  have hhandled : d'.inputContextAddress = (dispatch m d trb).2.inputContextAddress :=
    (handle_call h).object
  rcases dispatch_device m d trb with heq | heq
  · rw [hhandled, heq]
  · rw [hhandled, heq]

theorem startInitialize_object (h : d.startInitialize = some (err, d')) :
    d'.inputContextAddress = d.inputContextAddress := by
  unfold startInitialize getDescriptor controlIn at h
  exact (HandlerCall.control h ⟨rfl, rfl, rfl, rfl⟩).object

theorem onEndpointsConfiguredFrom_object {ns : List ℕ}
    (h : d.onEndpointsConfiguredFrom ns = some (err, d')) :
    d'.inputContextAddress = d.inputContextAddress := by
  induction ns generalizing d with
  | nil =>
    rw [← (Prod.mk.inj (Option.some.inj h)).2]
  | cons n rest ih =>
    unfold onEndpointsConfiguredFrom at h
    split at h
    · exact ih h
    · unfold driverOnEndpointsConfigured controlOut at h
      simp only [Option.bind_eq_bind, Option.bind_eq_some_iff] at h
      obtain ⟨⟨err₁, d₁⟩, ⟨w, -, hcall⟩, h⟩ := h
      have hobject := (HandlerCall.control (d := d) hcall ⟨rfl, rfl, rfl, rfl⟩).object
      split at h
      · rw [← (Prod.mk.inj (Option.some.inj h)).2]
        exact hobject
      · exact (ih h).trans hobject

end Device

/-! ## Events as steps -/

variable {d' : Device} {s : TransferState} {t : Transfer}

/-- The call of a handler is one of the run. -/
theorem reachable_handlerCall (h : transferSystem.Reachable s)
    (hcall : s.device.HandlerCall d') (hcount : s.outstanding.length < 16)
    (hroom : NotOverrun d' s.outstanding) :
    ∃ new, transferSystem.Reachable ⟨d', s.outstanding ++ new⟩ := by
  have hinv := transferInvariant_of_reachable h
  -- the changes before the call are a step of their own
  have hquiet : ∀ {d₁ : Device}, s.device.SameTransfers d₁ →
      transferSystem.Reachable { s with device := d₁ } := by
    intro d₁ hsame
    refine .next h (.other hsame.stages ?_ (Device.extends_of_eq hsame.rings) ?_)
    · exact ⟨by rw [hsame.rings]; exact hinv.rings.wellFormed,
        by rw [hsame.rings]; exact hinv.rings.apart⟩
    · intro t ht
      rw [Device.pushedTo_congr (congrFun hsame.rings t.index)]
      exact hinv.notOverrun t ht
  cases hcall with
  | silent hsame => exact ⟨[], by rw [List.append_nil]; exact hquiet hsame⟩
  | @control d₁ _ dirIn epId setupData address size issuer err hcall hsame =>
    by_cases herr : err = .kSuccess
    · subst herr
      exact ⟨[.issued d₁ dirIn epId setupData address size],
        .next (hquiet hsame) (.issued hcall hcount hroom)⟩
    · exact ⟨[], by rw [List.append_nil]; exact .next (hquiet hsame) (.refused hcall herr)⟩
  | @interrupt d₁ _ epId address size err hcall hsame =>
    refine ⟨[], ?_⟩
    rw [List.append_nil]
    have hreach := hquiet hsame
    have hinv₁ := transferInvariant_of_reachable hreach
    rcases Device.interruptIn_cases hcall with rfl | ⟨tr, p, tr', -, htr, hpush, rfl⟩
    · exact hreach
    · have hring : d₁.RingPushed
          { d₁ with
            transferRings := Function.update d₁.transferRings (epId.address - 1) (some tr') }
          (epId.address - 1) [NormalTRB.make address size] :=
        ⟨tr, tr', htr, rfl, LoggedRing.push_base hpush, LoggedRing.push_pushed hpush,
          (hinv₁.rings.wellFormed _ tr htr).push hpush⟩
      exact .next hreach (.other rfl (hinv₁.rings.pushed hring) hring.toExtends hroom)

/-- A whole event, with all that its handler does, leads to a state of a run. -/
theorem reachable_onTransferEventReceived {m : Machine} {trb : TRB} {err : Error}
    {before after : List Transfer} (h : transferSystem.Reachable s) (hmem : s.device.InMemory m)
    (hsplit : s.outstanding = before ++ t :: after)
    (hpointer : Device.Succeeded trb → TransferEventTRB.pointer trb = t.completed)
    (hevent : s.device.onTransferEventReceived m trb = some (err, d'))
    (hroom : NotOverrun d' (before ++ after)) :
    ∃ new, transferSystem.Reachable ⟨d', before ++ after ++ new⟩ := by
  rw [Device.onTransferEventReceived] at hevent
  have hcompleted : transferSystem.Reachable ⟨(s.device.dispatch m trb).2, before ++ after⟩ :=
    .next h (.completed hmem hsplit hpointer)
  have hcount := (transferInvariant_of_reachable h).count
  rw [hsplit, List.length_append, List.length_cons] at hcount
  refine reachable_handlerCall hcompleted (Device.handle_call hevent) ?_ hroom
  rw [List.length_append]
  omega

end TommyOS.Usb
