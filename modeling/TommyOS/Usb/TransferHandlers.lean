import TommyOS.Usb.CommandHandlers

/-!
# The handler of transfers

A transfer event keeps what is known about the rings of its device, and when the device is
initialized its endpoints get rings of their own.
-/

namespace TommyOS.Usb

open Controller

/-! ## The endpoints -/

section Endpoints

variable {s : UsbState} {c : Controller} {events : List PostedEvent} {m : Machine}
  {slotId : BitVec 8} {d d' : Device} {w : HIDBaseDriver} {err : Error}

theorem setDevice_setDevice (c : Controller) (slotId : BitVec 8) (d d' : Device) :
    (c.setDevice slotId d).setDevice slotId d' = c.setDevice slotId d' := by
  unfold setDevice
  rw [Function.update_idem]

/-- A ring that is not in use may be another one. -/
theorem prepared_of_ring (hprepared : d.Prepared w) (hformed : d.RingsFormed) {i : ℕ} (hi : i ≠ 0)
    (base : BitVec 64) (ctx : InputContext)
    (hd' : d' =
      { d with
        transferRings := Function.update d.transferRings i (some (.initializeWith base 32))
        inputContext := ctx }) :
    d'.Prepared w ∧ d'.RingsFormed ∧ d.Extends d' ∧ ∀ k, d'.pushedTo k = d.pushedTo k := by
  have hring : ∀ k, d'.transferRings k =
      if k = i then some (.initializeWith base 32) else d.transferRings k := by
    rw [hd']
    exact Function.update_apply _ _ _
  have hpushed : ∀ k, d'.pushedTo k = d.pushedTo k := by
    intro k
    -- nothing was pushed to the ring that is replaced
    by_cases hk : k = i
    · rw [Device.pushedTo_of_eq ((hring k).trans (if_pos hk)), hk, hprepared.quiet hi]
      rfl
    · exact Device.pushedTo_congr ((hring k).trans (if_neg hk))
  have hdriver : d'.HasDriver w := by
    rw [hd']
    exact hprepared.driver.withRings _ _ _ _
  refine ⟨hprepared.congr (by rw [hd']) hdriver hpushed, ⟨?_, ?_, ?_⟩, ?_, hpushed⟩
  · intro k r hr
    rw [hring k] at hr
    split at hr
    · rw [← Option.some.inj hr]
      exact LoggedRing.wellFormed_initializeWith base
    · exact hformed.wellFormed k r hr
  · obtain ⟨r, hr⟩ := hformed.defaultPipe
    exact ⟨r, ((hring 0).trans (if_neg (Ne.symm hi))).trans hr⟩
  · rw [hpushed 0]
    exact hformed.control
  · intro k r hr hused
    have hk : k ≠ i := by
      rintro rfl
      rw [← Device.pushedTo_of_eq hr, hprepared.quiet hi] at hused
      exact hused rfl
    exact ⟨r, ((hring k).trans (if_neg hk)).trans hr, rfl, List.prefix_rfl⟩

theorem configureEndpointContexts_cases {speed n : ℕ} (hprepared : d.Prepared w)
    (hformed : d.RingsFormed) (hn : n ≤ d.numEpConfigs)
    (h : configureEndpointContexts m speed d n = some d') :
    d'.Prepared w ∧ d'.RingsFormed ∧ d.Extends d' ∧ (∀ k, d'.pushedTo k = d.pushedTo k) ∧
      d'.port = d.port ∧ d'.numEpConfigs = d.numEpConfigs := by
  induction n generalizing d' with
  | zero =>
    obtain rfl := Option.some.inj h
    exact ⟨hprepared, hformed, Device.extends_of_eq rfl, fun _ => rfl, rfl, rfl⟩
  | succ n ih =>
    unfold configureEndpointContexts at h
    simp only [Option.bind_eq_bind, Option.bind_eq_some_iff] at h
    obtain ⟨d₁, hd₁, ctx, hctx, ⟨tr, d₂⟩, halloc, base, hbase, h⟩ := h
    obtain ⟨hprepared₁, hformed₁, hextend₁, hpushed₁, hport₁, hnum₁⟩ := ih (by omega) hd₁
    -- no endpoint takes the ring of the default pipe
    have haddress : (d₁.epConfigs n).epId.address ≠ 1 := EndpointID.address_ne_one
      (hprepared₁.driver.endpoints.epConfigs n (by rw [hnum₁]; omega))
    unfold InputContext.enableEndpoint at hctx
    split at hctx
    · next hindex =>
      obtain rfl := Option.some.inj hctx
      unfold Device.allocTransferRing at halloc
      rw [if_pos hindex, Option.some.injEq, Prod.mk.injEq] at halloc
      obtain ⟨rfl, rfl⟩ := halloc
      simp only at hbase
      obtain ⟨address, -, rfl⟩ := Option.map_eq_some_iff.mp hbase
      have hd' : ∃ ctx, ctx.slotContext = d₁.inputContext.slotContext ∧ d' =
          { d₁ with
            transferRings := Function.update d₁.transferRings
              ((d₁.epConfigs n).epId.address - 1) (some (.initializeWith address 32))
            inputContext := ctx } := by
        rw [hbase] at h
        refine ⟨_, ?_, (Option.some.inj h).symm⟩
        rfl
      obtain ⟨ctx, hctx, hd'⟩ := hd'
      obtain ⟨hprepared', hformed', hextend', hpushed'⟩ :=
        prepared_of_ring hprepared₁ hformed₁ (by omega) address ctx hd'
      refine ⟨hprepared', hformed', hextend₁.trans hextend', fun k => ?_, ?_, ?_⟩
      · rw [hpushed' k, hpushed₁ k]
      · rw [← hport₁, hd']
        exact congrArg SlotContext.rootHubPortNum hctx
      · rw [← hnum₁, hd']
    · exact absurd hctx (by simp)

end Endpoints

/-! ## Transfers -/

/-- What a transfer event does to its device. -/
structure TransferHandled (s : UsbState) (events : List PostedEvent) (slotId : BitVec 8)
    (d d' : Device) : Prop where
  port : d'.port = d.port
  extend : d.Extends d'
  formed : d'.RingsFormed
  stage : d'.StageAt (s.driver.portConfigPhase d.port)
  control : d'.isInitialized = true →
    ∀ j, (s.after s.driver events).Live (.transfer slotId 0) j → 8 ≤ j
  interrupt : ∀ i, i ≠ 0 → ∀ j, (s.after s.driver events).Live (.transfer slotId i) j →
    (d'.pushedTo i).length ≤ j + 1
  safe : ∀ i k, (d.pushedTo i).length ≤ k → k < (d'.pushedTo i).length →
    s.Safe (.transfer slotId i) k

section Transfers

variable {s : UsbState} {c : Controller} {e : PostedEvent} {events : List PostedEvent}
  {m : Machine} {slotId : BitVec 8} {d d' : Device} {w : HIDBaseDriver} {err : Error} {i j : ℕ}

/-- The events that are left are about later TRBs of the ring. -/
theorem UsbInvariant.behind (hinv : UsbInvariant s) (hevents : s.events = e :: events)
    {ρ : RingId} (hissuer : e.issuer = some (ρ, j)) {j' : ℕ}
    (hlive : (s.after s.driver events).Live ρ j') : j < j' := by
  have hsorted := hinv.sorted
  rw [hevents] at hsorted
  rcases hlive with hle | ⟨e', he', hissuer'⟩
  · have hconsumed := ((hinv.event e (by rw [hevents]; exact List.mem_cons_self)).completion
      ρ j hissuer).1
    exact Nat.lt_of_lt_of_le hconsumed hle
  · exact (List.pairwise_cons.mp hsorted).1 e' he' ρ j j' hissuer hissuer'

theorem transferHandled_starting (hinv : UsbInvariant s) (hevents : s.events = e :: events)
    (hissuer : e.issuer = some (.transfer slotId i, j)) (hd : s.driver.devices slotId = some d)
    (hphase : s.driver.portConfigPhase d.port = .kInitializingDevice) (hstart : d.Starting)
    (hmem : Device.InMemory m d) (hissued : Device.IssuedBy e.trb d i j)
    (hvalid : Device.ValidAnswer m e.trb)
    (h : d.onTransferEventReceived m e.trb = some (err, d')) :
    TransferHandled s events slotId d d' := by
  have hdevice := hinv.device slotId d hd
  -- before the initialization is over only the default pipe is in use
  have hi : i = 0 := by
    by_contra hi
    exact hissued.used (hstart.quiet i hi)
  subst hi
  obtain ⟨hformed, hcontrol, hstage⟩ := Device.onTransferEventReceived_starting hdevice.formed
    hstart hmem hissued hvalid h
  have hlength : (d'.pushedTo 0).length ≤ 8 := by
    rcases hstage with hstart' | ⟨-, w, hprepared⟩
    · exact hstart'.length_le
    · exact Nat.le_of_eq hprepared.length
  refine ⟨hcontrol.port_eq, hcontrol.extend, hformed, ?_, fun hinit j' hj' => ?_,
    fun k hk j' _ => ?_, safe_of_controlOnly hcontrol fun j' _ => by omega⟩
  · rw [hphase]
    rcases hstage with hstart' | ⟨-, hprepared⟩
    · exact .inl hstart'
    · exact .inr hprepared
  · rcases hstage with hstart' | ⟨rfl, -⟩
    · rw [hstart'.isInitialized] at hinit
      exact absurd hinit Bool.false_ne_true
    · -- the last TRB of the initialization
      exact hinv.behind hevents hissuer hj'
  · rw [hcontrol.others k hk, hstart.quiet k hk]
    exact Nat.zero_le _

theorem transferHandled_running (hinv : UsbInvariant s) (hevents : s.events = e :: events)
    (hissuer : e.issuer = some (.transfer slotId i, j)) (hd : s.driver.devices slotId = some d)
    (hrun : d.Running w) (hmem : Device.InMemory m d) (hissued : Device.IssuedBy e.trb d i j)
    (hstage : ∀ d' w', Device.Running d' w' → (d'.pushedTo 0).length = (d.pushedTo 0).length →
      (w.initializePhase = 0 → w' = w) → d'.StageAt (s.driver.portConfigPhase d.port))
    (h : d.onTransferEventReceived m e.trb = some (err, d')) :
    TransferHandled s events slotId d d' := by
  have hdevice := hinv.device slotId d hd
  have hmono : ∀ {ρ j'}, (s.after s.driver events).Live ρ j' → s.Live ρ j' := fun hlive =>
    live_of_after (by rw [hevents]; exact List.suffix_cons e events) hlive
  have hlive : s.Live (.transfer slotId i) j :=
    .inr ⟨e, by rw [hevents]; exact List.mem_cons_self, hissuer⟩
  obtain ⟨hformed, honly, w', hrun', hphase⟩ :=
    Device.onTransferEventReceived_running hdevice.formed hrun hmem hissued h
  refine ⟨congrArg (·.slotContext.rootHubPortNum) honly.inputContext, honly.extend, hformed,
    hstage d' w' hrun' (by rw [honly.control]) hphase,
    fun _ j' hj' => hdevice.control hrun.isInitialized j' (hmono hj'), ?_, ?_⟩
  · intro k hk j' hj'
    have hold := hdevice.interrupt k hk j' (hmono hj')
    -- a ring of an endpoint grows by one TRB when it was empty, or when its last one is done
    rcases honly.others k with hsame | ⟨hone, hempty | rfl⟩
    · rw [hsame]
      exact hold
    · rw [hone, hempty]
      exact Nat.succ_le_succ (Nat.zero_le j')
    · have hlast := hdevice.interrupt k hk j hlive
      have hbehind := hinv.behind hevents hissuer hj'
      omega
  · intro k n hold hnew j' hj'
    have hk : k ≠ 0 := by
      rintro rfl
      rw [honly.control] at hnew
      exact absurd hnew (Nat.not_lt.mpr hold)
    have hlast := hdevice.interrupt k hk j' hj'
    rcases honly.others k with hsame | ⟨hone, -⟩
    · rw [hsame] at hnew
      omega
    · omega

theorem transferHandled (hinv : UsbInvariant s) (henv : Environment m s.driver e.trb)
    (hevents : s.events = e :: events) (hissuer : e.issuer = some (.transfer slotId i, j))
    (hd : s.driver.devices slotId = some d)
    (h : d.onTransferEventReceived m e.trb = some (err, d')) :
    TransferHandled s events slotId d d' := by
  have he : e ∈ s.events := by
    rw [hevents]
    exact List.mem_cons_self
  have hdevice := hinv.device slotId d hd
  obtain ⟨-, r, hring, hlt, -, -, -, hpointer⟩ := (hinv.event e he).completion _ j hissuer
  obtain ⟨d₀, hd₀, hr⟩ := ring_transfer.mp hring
  obtain rfl := Option.some.inj (hd₀.symm.trans hd)
  have hmem : Device.InMemory m d₀ := fun k rk hrk =>
    henv.memory (.transfer slotId k) rk (ring_transfer.mpr ⟨d₀, hd, hrk⟩)
  have hissued : Device.IssuedBy e.trb d₀ i j := by
    have hlength := hdevice.length_le_of_live (.inr ⟨e, he, hissuer⟩)
    rw [Device.pushedTo_of_eq hr] at hlength
    exact ⟨r, hr, hlt, by omega, hpointer⟩
  -- while the endpoints are configured the class driver has not started
  have hprepared : ∀ w, d₀.Prepared w →
      (s.driver.portConfigPhase d₀.port = .kInitializingDevice ∨
        s.driver.portConfigPhase d₀.port = .kConfiguringEndpoints) →
      TransferHandled s events slotId d₀ d' := by
    intro w hprepared hphase
    refine transferHandled_running hinv hevents hissuer hd hprepared.toRunning hmem hissued
      (fun d₁ w' hrun' hlength hsame => ?_) h
    obtain rfl := hsame hprepared.phase
    have hprepared' : d₁.Prepared w' := ⟨hrun', hprepared.phase, hlength.trans hprepared.length⟩
    rcases hphase with hphase | hphase
    · rw [hphase]
      exact .inr ⟨w', hprepared'⟩
    · rw [hphase]
      exact ⟨w', hprepared'⟩
  have hstage := hdevice.stage
  unfold Device.StageAt at hstage
  -- the phases of the port with a device: fresh, initializing, configuring, configured
  split at hstage
  · exact absurd (hstage.pushed i) hissued.used
  · next hphase =>
    rcases hstage with hstart | ⟨w, hw⟩
    · exact transferHandled_starting hinv hevents hissuer hd hphase hstart hmem hissued
        henv.answer h
    · exact hprepared w hw (.inl hphase)
  · next hphase =>
    obtain ⟨w, hw⟩ := hstage
    exact hprepared w hw (.inr hphase)
  · next hphase =>
    obtain ⟨w, hrun⟩ := hstage
    refine transferHandled_running hinv hevents hissuer hd hrun hmem hissued
      (fun d₁ w' hrun' _ _ => ?_) h
    rw [hphase]
    exact ⟨w', hrun'⟩
  · exact hstage.elim

/-- The device of a transfer event, perhaps with other rings that are not in use. -/
theorem TransferHandled.slotStep (h : TransferHandled s events slotId d d')
    (hd : s.driver.devices slotId = some d) {d'' : Device} (hd'' : c.devices slotId = some d'')
    (hport : d''.port = d.port) (hextend : d'.Extends d'')
    (hpushed : ∀ k, d''.pushedTo k = d'.pushedTo k) (hformed : d''.RingsFormed)
    (hinit : d''.isInitialized = true → d'.isInitialized = true)
    (hstage : d''.StageAt (c.portConfigPhase d''.port)) : SlotStep s c events slotId := by
  refine .changed d d'' hd hd'' hport (h.extend.trans hextend) ⟨hformed, hstage, ?_, ?_⟩ ?_
  · exact fun hinit' j hj => h.control (hinit hinit') j hj
  · intro k hk j hj
    rw [hpushed k]
    exact h.interrupt k hk j hj
  · intro k n hold hnew
    rw [hpushed k] at hnew
    exact h.safe k n hold hnew

/-- The device of a transfer event is all that changes. -/
theorem TransferHandled.setDevice_driverStep (h : TransferHandled s events slotId d d')
    (hinv : UsbInvariant s) (hd : s.driver.devices slotId = some d) {d'' : Device}
    (hport : d''.port = d.port) (hextend : d'.Extends d'')
    (hpushed : ∀ k, d''.pushedTo k = d'.pushedTo k) (hformed : d''.RingsFormed)
    (hinit : d''.isInitialized = true → d'.isInitialized = true)
    (hstage : d''.StageAt (s.driver.portConfigPhase d.port)) :
    DriverStep s (s.driver.setDevice slotId d'') events := by
  have hd'' : (s.driver.setDevice slotId d'').devices slotId = some d'' :=
    Function.update_self _ _ _
  refine driverStep_of_slot hinv rfl (fun slotId' hne => Function.update_of_ne hne _ _)
    (fun _ _ _ _ => rfl) ?_ (hinv.used slotId d hd) 0 ?_ (.inl ⟨rfl, Nat.le_refl _⟩)
  · refine h.slotStep hd hd'' hport hextend hpushed hformed hinit ?_
    rw [hport]
    exact hstage
  · rw [commandWeight_of_some hd, commandWeight_of_some hd'', hport]
    exact Nat.le_refl _

/-- The initialization of the device is over. -/
theorem TransferHandled.prepared (h : TransferHandled s events slotId d d')
    (hinit : d'.isInitialized = true)
    (hphase : s.driver.portConfigPhase d.port = .kInitializingDevice) : ∃ w, d'.Prepared w := by
  have hstage := h.stage
  rw [hphase] at hstage
  rcases hstage with hstart | hprepared
  · rw [hstart.isInitialized] at hinit
    exact absurd hinit Bool.false_ne_true
  · exact hprepared

theorem prepared_withContext (h : d.Prepared w) (ctx : InputContext) :
    Device.Prepared { d with inputContext := ctx } w :=
  h.congr rfl (h.driver.withRings _ _ _ _) fun _ => rfl

/-- The endpoints of a device are configured when its initialization is over. -/
theorem configureEndpoints_driverStep (hinv : UsbInvariant s)
    (hhandled : TransferHandled s events slotId d d') (hd : s.driver.devices slotId = some d)
    (hinit : d'.isInitialized = true)
    (hphase : s.driver.portConfigPhase d.port = .kInitializingDevice)
    (hport : (m.slotContext slotId).rootHubPortNum = d.port)
    (h : (s.driver.setDevice slotId d').configureEndpoints m slotId d' = some (err, c)) :
    DriverStep s c events := by
  obtain ⟨w, hprepared⟩ := hhandled.prepared hinit hphase
  have hprepared₁ := prepared_withContext hprepared
    (configureInputContext m slotId d'.inputContext)
  rcases configureEndpoints_cases h with hc | ⟨speed, d'', p, cr, hcontexts, hpush, hc⟩
  · -- the speed of the port is not known
    rw [hc, setDevice_setDevice]
    refine hhandled.setDevice_driverStep hinv hd hport (Device.extends_of_eq rfl) (fun _ => rfl)
      (hhandled.formed.congr rfl) id ?_
    rw [hphase]
    exact .inr ⟨w, hprepared₁⟩
  · obtain ⟨hprepared₂, hformed₂, hextend₂, hpushed₂, hport₂, -⟩ := configureEndpointContexts_cases
      hprepared₁ (hhandled.formed.congr rfl) (Nat.le_refl _) hcontexts
    have hphases : c.portConfigPhase =
        Function.update s.driver.portConfigPhase d.port .kConfiguringEndpoints := by
      rw [hc, hport]
      rfl
    have hd'' : c.devices slotId = some d'' := by
      rw [hc]
      exact Function.update_self _ _ _
    have hport'' : d''.port = d.port := hport₂.trans hport
    have hphase'' : c.portConfigPhase d''.port = .kConfiguringEndpoints := by
      rw [hphases, hport'', Function.update_self]
    -- the command is on the ring, and the port is in the phase that waits for it
    refine driverStep_of_slot hinv (by rw [hc]; rfl) ?_ ?_ ?_ (hinv.used slotId d hd) 1 ?_ ?_
    · intro slotId' hne
      rw [hc]
      exact (Function.update_of_ne hne _ _).trans (Function.update_of_ne hne _ _)
    · intro slotId' d₁ hne hd₁
      rw [hphases, Function.update_of_ne (hinv.other_port hd hne hd₁)]
    · refine hhandled.slotStep hd hd'' hport'' hextend₂ hpushed₂ hformed₂ (fun _ => hinit) ?_
      rw [hphase'']
      exact ⟨w, hprepared₂⟩
    · rw [commandWeight_of_some hd, commandWeight_of_some hd'', hphase'', hphase]
      decide
    · refine .inr ⟨_, p, by rw [hc]; exact hpush, Nat.succ_le_succ ?_⟩
      exact enabling_le_of_update (by rw [hc]; rfl) hphases (by rw [hphase]; decide)

theorem onTransfer_driverStep (hinv : UsbInvariant s) (henv : Environment m s.driver e.trb)
    (hevents : s.events = e :: events)
    (hissuer : e.issuer = some (.transfer (TransferEventTRB.slotId e.trb) i, j))
    (h : s.driver.onTransfer m e.trb = some (err, c)) : DriverStep s c events := by
  rcases onTransfer_cases h with ⟨-, rfl⟩ | ⟨d, err', d', hfind, hreceived, hc⟩
  · exact driverStep_refl hinv
  · have hd := (findBySlot_eq_some.mp hfind).2
    have hhandled := transferHandled hinv henv hevents hissuer hd hreceived
    rcases hc with rfl | ⟨hinit, hphase, hconfigure⟩
    · exact hhandled.setDevice_driverStep hinv hd hhandled.port (Device.extends_of_eq rfl)
        (fun _ => rfl) hhandled.formed id hhandled.stage
    · have hport := hinv.device_of_rootHubPort henv hd (by rw [hphase]; decide)
      rw [hport] at hphase
      exact configureEndpoints_driverStep hinv hhandled hd hinit hphase hport hconfigure

end Transfers

end TommyOS.Usb
