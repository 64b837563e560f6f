import TommyOS.Usb.DeviceStages

/-!
# Devices with a driver

The last stages of a device: its driver is called when the endpoints are configured, asks for
the boot protocol, and then for one report after the other.
-/

namespace TommyOS.Usb

namespace Device

variable {m : Machine} {d d' : Device} {w : HIDBaseDriver} {err : Error} {trb : TRB} {len : ℤ}

/-! ## The calls of the driver -/

/-- The driver asks for the boot protocol. -/
theorem driverOnEndpointsConfigured_running {place : ℕ} (hrun : d.Running w)
    (hquiet : ∀ i, i ≠ 0 → d.pushedTo i = []) (hformed : d.RingsFormed)
    (hroom : (d.pushedTo 0).length + 2 ≤ 38)
    (h : d.driverOnEndpointsConfigured place = some (err, d')) :
    d'.RingsFormed ∧ ControlOnly d d' ∧
      (d'.pushedTo 0).length = (d.pushedTo 0).length + 2 ∧ ∃ w', d'.Running w' := by
  unfold driverOnEndpointsConfigured controlOut at h
  simp only [Option.bind_eq_bind, Option.bind_eq_some_iff] at h
  obtain ⟨w₁, hw₁, h⟩ := h
  obtain ⟨rfl, rfl⟩ := getElem?_driver hrun.driver.drivers hw₁
  obtain ⟨-, hring, hformed', r, rings, waiters, -, hd⟩ := controlTransfer_pushed
    (d := d.setDriver 0 { w with initializePhase := 1 }) (hformed.congr rfl) h
  -- `SET_PROTOCOL` has no data stage, so it takes two TRBs
  have hothers : ∀ i, i ≠ 0 → d'.pushedTo i = d.pushedTo i := fun i hi => hring.other hi
  have hlength : (d'.pushedTo 0).length = (d.pushedTo 0).length + 2 := by
    rw [hring.pushed, List.length_append]
    rfl
  have hdriver := hrun.driver
  refine ⟨hformed', ⟨by rw [hd]; rfl, hring.toExtends, hothers⟩, hlength,
    { w with initializePhase := 1 }, ?_⟩
  refine ⟨by rw [hd]; exact hrun.isInitialized, ?_, fun i hi hused => ?_, by omega⟩
  · rw [hd]
    refine ⟨?_, hdriver.interruptIn, hdriver.endpoints.epConfigs, hdriver.endpoints.classDrivers⟩
    show d.drivers.set 0 _ = _
    rw [hdriver.drivers]
    rfl
  · rw [hothers i hi] at hused
    exact absurd (hquiet i hi) hused

/-- For each endpoint number the driver may be called once. -/
theorem onEndpointsConfiguredFrom_running {ns : List ℕ} (hrun : d.Running w)
    (hquiet : ∀ i, i ≠ 0 → d.pushedTo i = []) (hformed : d.RingsFormed)
    (hroom : (d.pushedTo 0).length + 2 * ns.length ≤ 38)
    (h : d.onEndpointsConfiguredFrom ns = some (err, d')) :
    d'.RingsFormed ∧ ControlOnly d d' ∧ ∃ w', d'.Running w' := by
  -- each call takes two TRBs of the room, and the first failure ends the loop
  induction ns generalizing d w with
  | nil =>
    obtain ⟨-, rfl⟩ := Prod.mk.injEq .. ▸ Option.some.inj h
    exact ⟨hformed, controlOnly_of_eq rfl rfl, w, hrun⟩
  | cons n rest ih =>
    rw [List.length_cons] at hroom
    unfold onEndpointsConfiguredFrom at h
    split at h
    · exact ih hrun hquiet hformed (by omega) h
    · simp only [Option.bind_eq_bind, Option.bind_eq_some_iff] at h
      obtain ⟨⟨err₁, d₁⟩, hcall, h⟩ := h
      obtain ⟨hformed₁, hcontrol, hlength, w₁, hrun₁⟩ :=
        driverOnEndpointsConfigured_running hrun hquiet hformed (by omega) hcall
      simp only at h
      split at h
      · obtain ⟨-, rfl⟩ := Prod.mk.injEq .. ▸ Option.some.inj h
        exact ⟨hformed₁, hcontrol, w₁, hrun₁⟩
      · have hquiet₁ : ∀ i, i ≠ 0 → d₁.pushedTo i = [] := fun i hi =>
          (hcontrol.others i hi).trans (hquiet i hi)
        obtain ⟨hformed', hcontrol', hrun'⟩ := ih hrun₁ hquiet₁ hformed₁ (by omega) h
        exact ⟨hformed', hcontrol.trans hcontrol', hrun'⟩

theorem onEndpointsConfigured_cases (hprepared : d.Prepared w) (hformed : d.RingsFormed)
    (h : d.onEndpointsConfigured = some (err, d')) :
    d'.RingsFormed ∧ ControlOnly d d' ∧ ∃ w', d'.Running w' := by
  unfold onEndpointsConfigured at h
  rw [List.range_succ_eq_map] at h
  unfold onEndpointsConfiguredFrom at h
  -- the default pipe has no driver
  rw [hprepared.driver.endpoints.classDrivers] at h
  have hlength : ((List.range 15).map Nat.succ).length = 15 := by
    rw [List.length_map, List.length_range]
  exact onEndpointsConfiguredFrom_running hprepared.toRunning (fun i hi => hprepared.quiet hi)
    hformed (by rw [hprepared.length, hlength]) h

/-! ## Reports -/

/-- What an event of the endpoint with an index may push: one transfer, for this endpoint or for
one that was not in use. -/
structure InterruptOnly (d d' : Device) (i : ℕ) : Prop where
  inputContext : d'.inputContext = d.inputContext
  extend : d.Extends d'
  control : d'.pushedTo 0 = d.pushedTo 0
  others : ∀ k, d'.pushedTo k = d.pushedTo k ∨
    (d'.pushedTo k).length = (d.pushedTo k).length + 1 ∧ (d.pushedTo k = [] ∨ k = i)

theorem interruptOnly_of_eq (hctx : d'.inputContext = d.inputContext)
    (hrings : d'.transferRings = d.transferRings) (i : ℕ) : InterruptOnly d d' i :=
  ⟨hctx, extends_of_eq hrings, pushedTo_congr (congrFun hrings 0),
    fun k => .inl (pushedTo_congr (congrFun hrings k))⟩

/-- The driver asks for the next report. -/
theorem interruptIn_running {i size : ℕ} {address : BitVec 64} (hrun : d.Running w)
    (hformed : d.RingsFormed) (hphase : w.initializePhase = 2)
    (hnew : ∀ k, k + 1 = w.epInterruptIn.address → d.pushedTo k = [] ∨ k = i)
    (h : d.interruptIn w.epInterruptIn address size = some (err, d')) :
    d'.RingsFormed ∧ InterruptOnly d d' i ∧ d'.Running w := by
  rcases interruptIn_pushed hformed hrun.driver.interruptIn h with rfl |
    ⟨k, rings, hk, haddress, hring, hformed', hd⟩
  · exact ⟨hformed, interruptOnly_of_eq rfl rfl i, hrun⟩
  · have hcontrol : d'.pushedTo 0 = d.pushedTo 0 := hring.other (Ne.symm hk)
    refine ⟨hformed', ⟨by rw [hd], hring.toExtends, hcontrol, fun k' => ?_⟩, ?_⟩
    -- only the ring of the endpoint grows, by the one normal TRB
    · by_cases hk' : k' = k
      · subst hk'
        right
        rw [hring.pushed, List.length_append]
        exact ⟨rfl, hnew k' haddress⟩
      · exact .inl (hring.other hk')
    · refine ⟨by rw [hd]; exact hrun.isInitialized, ?_, fun k' hk' hused => ?_, ?_⟩
      · rw [hd]
        exact hrun.driver.withRings _ _ _ _
      -- a ring in use is one the driver used before, or the one it uses now
      · by_cases hsame : k' = k
        · rw [hsame]
          exact ⟨haddress, hphase⟩
        · rw [hring.other hsame] at hused
          exact hrun.interrupts k' hk' hused
      · rw [hcontrol]
        exact hrun.control

theorem Running.setDriver (h : d.Running w) {w' : HIDBaseDriver}
    (hin : w'.epInterruptIn = w.epInterruptIn)
    (hphase : w.initializePhase = 2 → w'.initializePhase = 2) :
    (d.setDriver 0 w').Running w' where
  isInitialized := h.isInitialized
  driver := by
    refine ⟨?_, by rw [hin]; exact h.driver.interruptIn, h.driver.endpoints.epConfigs,
      h.driver.endpoints.classDrivers⟩
    show d.drivers.set 0 w' = [w']
    rw [h.driver.drivers]
    rfl
  interrupts := fun i hi hused => by
    obtain ⟨haddress, hphase'⟩ := h.interrupts i hi hused
    exact ⟨by rw [hin]; exact haddress, hphase hphase'⟩
  control := h.control

theorem driverOnControlCompleted_running {i place : ℕ} (hrun : d.Running w)
    (hformed : d.RingsFormed) (h : d.driverOnControlCompleted place = some (err, d')) :
    d'.RingsFormed ∧ InterruptOnly d d' i ∧
      ∃ w', d'.Running w' ∧ (w.initializePhase = 0 → w' = w) := by
  unfold driverOnControlCompleted at h
  simp only [Option.bind_eq_bind, Option.bind_eq_some_iff] at h
  obtain ⟨w₁, hw₁, h⟩ := h
  obtain ⟨rfl, rfl⟩ := getElem?_driver hrun.driver.drivers hw₁
  split at h
  · next hphase =>
    -- the first transfer for the reports
    have hrun' : (d.setDriver 0 { w with initializePhase := 2 }).Running
        { w with initializePhase := 2 } := hrun.setDriver rfl fun _ => rfl
    obtain ⟨hformed', honly, hrun''⟩ := interruptIn_running (i := i) hrun'
      (hformed.congr rfl) rfl (fun k haddress => .inl (by
        by_contra hused
        have hk : k ≠ 0 := by
          rintro rfl
          exact hrun.driver.interruptIn haddress.symm
        have hphase' := (hrun.interrupts k hk hused).2
        rw [hphase] at hphase'
        exact absurd hphase' (by decide))) h
    refine ⟨hformed', ⟨honly.inputContext, honly.extend, honly.control, honly.others⟩, _, hrun'',
      fun hzero => ?_⟩
    rw [hphase] at hzero
    exact absurd hzero (by decide)
  · rw [← (Prod.mk.inj (Option.some.inj h)).2]
    exact ⟨hformed, interruptOnly_of_eq rfl rfl i, w, hrun, fun _ => rfl⟩

theorem driverOnInterruptCompleted_running {i place : ℕ} {epId : EndpointID}
    (hformed : d.RingsFormed) (hrun : d.Running w) (hi : i ≠ 0) (hused : d.pushedTo i ≠ [])
    (h : d.driverOnInterruptCompleted m place epId len = some (err, d')) :
    d'.RingsFormed ∧ InterruptOnly d d' i ∧
      ∃ w', d'.Running w' ∧ (w.initializePhase = 0 → w' = w) := by
  obtain ⟨haddress, hphase⟩ := hrun.interrupts i hi hused
  unfold driverOnInterruptCompleted at h
  simp only [Option.bind_eq_bind, Option.bind_eq_some_iff] at h
  obtain ⟨w₁, hw₁, h⟩ := h
  obtain ⟨rfl, rfl⟩ := getElem?_driver hrun.driver.drivers hw₁
  split at h
  · split at h
    · generalize (fun k : ℕ => if (k : ℤ) < len then m.byteAt (w.bufAddress + BitVec.ofNat 64 k)
        else w.previousBuf k) = previousBuf at h
      have hrun₁ : (d.setDriver 0 { w with previousBuf := previousBuf }).Running
          { w with previousBuf := previousBuf } := hrun.setDriver rfl id
      obtain ⟨hformed', honly, hrun'⟩ := interruptIn_running (i := i) hrun₁
        (hformed.congr rfl) hphase (fun k hk => .inr (Nat.succ.inj (hk.trans haddress.symm))) h
      refine ⟨hformed', ⟨honly.inputContext, honly.extend, honly.control, honly.others⟩, _, hrun',
        fun hzero => ?_⟩
      rw [hphase] at hzero
      exact absurd hzero (by decide)
    · exact absurd h (by simp)
  · rw [← (Prod.mk.inj (Option.some.inj h)).2]
    exact ⟨hformed, interruptOnly_of_eq rfl rfl i, w, hrun, fun _ => rfl⟩

/-- An event of a device with its driver. -/
theorem onTransferEventReceived_running {i j : ℕ} (hformed : d.RingsFormed) (hrun : d.Running w)
    (hmem : InMemory m d) (hissued : IssuedBy trb d i j)
    (h : d.onTransferEventReceived m trb = some (err, d')) :
    d'.RingsFormed ∧ InterruptOnly d d' i ∧
      ∃ w', d'.Running w' ∧ (w.initializePhase = 0 → w' = w) := by
  have hused := hissued.used
  obtain ⟨r, hr, hj, hrecent, hpointer⟩ := hissued
  obtain ⟨cycle, hissuer⟩ := trbAt_slot hmem hformed hr hj hrecent
  have hrun₁ : Running { d with
      setupStageMap := d.setupStageMap.delete (TransferEventTRB.pointer trb) } w :=
    hrun.congr rfl (hrun.driver.withRings _ _ _ _) fun _ => rfl
  -- the branches that return an error at once
  have hsame : ∀ {e : Error} {d₁ : Device}, some (e, d₁) = some (err, d') → d₁.Running w →
      d₁.inputContext = d.inputContext → d₁.transferRings = d.transferRings →
      d'.RingsFormed ∧ InterruptOnly d d' i ∧
        ∃ w', d'.Running w' ∧ (w.initializePhase = 0 → w' = w) := by
    intro e d₁ heq hrun₁ hctx hrings
    rw [← (Prod.mk.inj (Option.some.inj heq)).2]
    exact ⟨hformed.congr hrings, interruptOnly_of_eq hctx hrings i, w, hrun₁, fun _ => rfl⟩
  -- data and status stages lead to the same handler, without the entry of the map
  have hcompleted : ∀ {setupData : SetupData} {address : BitVec 64} {len : ℤ},
      onControlCompleted m { d with
        setupStageMap := d.setupStageMap.delete (TransferEventTRB.pointer trb) }
        setupData address len = some (err, d') →
      d'.RingsFormed ∧ InterruptOnly d d' i ∧
        ∃ w', d'.Running w' ∧ (w.initializePhase = 0 → w' = w) := by
    intro setupData address len hcontrol
    unfold onControlCompleted at hcontrol
    rw [if_pos hrun₁.isInitialized] at hcontrol
    split at hcontrol
    · obtain ⟨hformed', honly, hrun'⟩ :=
        driverOnControlCompleted_running (i := i) hrun₁ (hformed.congr rfl) hcontrol
      exact ⟨hformed', ⟨honly.inputContext, honly.extend, honly.control, honly.others⟩, hrun'⟩
    · exact hsame hcontrol hrun₁ rfl rfl
  have hbranch := dispatched m d trb
  unfold onTransferEventReceived at h
  generalize dispatch m d trb = result at hbranch h
  cases hbranch with
  | refused e => exact hsame h hrun rfl rfl
  | normal htype =>
    rw [hpointer, hissuer, TRB.trbType_stamped] at htype
    have hi : i ≠ 0 := by
      rintro rfl
      exact hformed.control _ (by rw [pushedTo_of_eq hr]; exact List.getElem_mem hj) htype
    simp only [handle] at h
    unfold onInterruptCompleted at h
    split at h
    · exact driverOnInterruptCompleted_running hformed hrun hi hused h
    · exact hsame h hrun rfl rfl
  | data hget htype => exact hcompleted h
  | status hget htype => exact hcompleted h
  | other hget => exact hsame h hrun₁ rfl rfl

end Device

end TommyOS.Usb
