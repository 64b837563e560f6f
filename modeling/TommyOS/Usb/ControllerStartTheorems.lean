import TommyOS.Usb.ControllerProtocol

/-!
# The start respects the controller

The stages of the start one after the other: the firmware is asked for the controller, which is
halted, reset, told of its memory and run. What a stage may rely on is what the controller keeps.
-/

namespace TommyOS.Usb

open DeviceProgram

/-! ## What the controller keeps -/

/-- The capability that was found is one of legacy support. -/
theorem LegacySupport.id_eq {headers : ExtendedHeaders} {first : Option ℕ} {p : ℕ}
    (h : LegacySupport headers first p) : (headers p).1 = 1#8 := by
  induction h with
  | here hp => exact hp
  | later _ _ ih => exact ih

variable {r r' : HostRegisters} {first : Option ℕ} {headers : ExtendedHeaders}

/-! ### A controller that the firmware does not own -/

namespace HardwareStep

theorem usbcmd (h : HardwareStep r r') (hready : ¬ r.Resetting) : r'.usbcmd = r.usbcmd :=
  congrArg HostSettings.usbcmd (h.settings hready)

theorem runStop (h : HardwareStep r r') (hready : ¬ r.Resetting) : r'.runStop = r.runStop :=
  congrArg (BitVec.getLsbD · 0) (h.usbcmd hready)

theorem fresh (h : HardwareStep r r') (hr : Fresh r) : Fresh r' where
  ready hresetting := hr.ready (h.resetting hresetting)
  coherent hhalted := by
    rw [h.runStop hr.ready]
    by_contra hrun
    have hrun : r.runStop = true := by simpa using hrun
    have hbefore := hr.coherent (h.stopped hr.ready hrun hhalted)
    exact absurd hrun (by rw [hbefore]; decide)

end HardwareStep

/-! ### The firmware and its controller -/

namespace HostStep

variable (h : HostStep first r r')

include h

/-- A controller that was let go is not taken back. -/
theorem letGo (hr : ¬ FirmwareOwns first r) : ¬ FirmwareOwns first r' := mt h.firmwareOwns hr

/-- What the firmware lets go is ready for the driver, and stays so. -/
theorem fresh (hr : ¬ FirmwareOwns first r → Fresh r) (hletGo : ¬ FirmwareOwns first r') :
    Fresh r' := by
  by_cases howns : FirmwareOwns first r
  · exact h.letsGo howns hletGo
  · exact (h.controller howns).fresh (hr howns)

theorem atStart (hr : AtStart first r) : AtStart first r' where
  fresh := h.fresh hr.fresh
  unasked howns p hp := by
    rw [h.headers] at hp
    have hfree := hr.unasked (h.firmwareOwns howns) p hp
    rw [h.untouched p hp hfree]
    exact hfree

theorem released (hr : Released first r) : Released first r' :=
  ⟨(h.controller hr.letGo).fresh hr.toFresh, h.letGo hr.letGo⟩

theorem asked (hr : Owned first r) : Owned first r' := by
  intro p hp
  rw [h.headers] at hp
  exact h.owned p hp (hr p hp)

/-- Nothing but the driver ends the idle state. -/
theorem idle (hr : Idle first r) : Idle first r' where
  letGo := h.letGo hr.letGo
  ready hresetting := hr.ready ((h.controller hr.letGo).resetting hresetting)
  halted := (h.controller hr.letGo).halted hr.ready hr.stopped hr.halted
  stopped := ((h.controller hr.letGo).runStop hr.ready).trans hr.stopped

end HostStep

/-- The list of the extended capabilities is fixed. -/
theorem stable_headers : Stable (HostStep first) fun r => r.headers = headers :=
  fun _ _ hr h => h.headers.trans hr

theorem stable_atStart : Stable (HostStep first) (AtStart first) := fun _ _ hr h => h.atStart hr

theorem stable_released : Stable (HostStep first) (Released first) := fun _ _ hr h => h.released hr

theorem stable_owned : Stable (HostStep first) (Owned first) := fun _ _ hr h => h.asked hr

theorem stable_idle : Stable (HostStep first) (Idle first) := fun _ _ hr h => h.idle hr

/-- Outside of a reset a condition on the settings is kept. -/
theorem stable_settings {I : HostRegisters → Prop} (hI : Stable (HostStep first) I)
    (hready : ∀ r, I r → ¬ FirmwareOwns first r ∧ ¬ r.Resetting) (P : HostSettings → Prop) :
    Stable (HostStep first) fun r => I r ∧ P r.settings := by
  intro r r' hr h
  refine ⟨hI r r' hr.1 h, ?_⟩
  obtain ⟨hletGo, hready⟩ := hready r hr.1
  rw [(h.controller hletGo).settings hready]
  exact hr.2

theorem Idle.released (h : Idle first r) : Released first r :=
  ⟨⟨h.ready, fun _ => h.stopped⟩, h.letGo⟩

theorem Idle.free (h : Idle first r) : ¬ FirmwareOwns first r ∧ ¬ r.Resetting := ⟨h.letGo, h.ready⟩

section Stages

variable {err : Error} {memory : HostMemory}
  {answers : (HostRegisters → Prop) → (HostRegisters → Bool) → Prop}

/-! ## The firmware is asked for the controller -/

/-- The search finds the first legacy support capability or that there is none, by induction on what
is left of the list. -/
theorem findLegacySupport_meets {n : ℕ} {start : Option ℕ} (hends : SearchEnds headers n start)
    (hr : AtStart first r ∧ r.headers = headers) :
    Meets (startContract first err memory answers)
      (fun found t => (AtStart first t ∧ t.headers = headers) ∧
        ∀ p, LegacySupport headers start p ↔ found = some p)
      (findLegacySupport n start) r := by
  have hstable : Stable (HostStep first) fun r => AtStart first r ∧ r.headers = headers :=
    stable_atStart.and (C := startContract first err memory answers) stable_headers
  induction n generalizing start r with
  | zero =>
    cases start with
    | none =>
      refine meets_pure hstable hr fun t ht => ⟨ht, fun p => iff_of_false ?_ nofun⟩
      exact fun h => nomatch h
    | some p => exact absurd hends id
  | succ n ih =>
    cases start with
    | none =>
      refine meets_pure hstable hr fun t ht => ⟨ht, fun p => iff_of_false ?_ nofun⟩
      exact fun h => nomatch h
    | some p =>
      refine meets_read hstable hr fun t ht => ?_
      have hid : ExtendedRegister.capabilityId (t.extended p) = (headers p).1 := by
        rw [← ht.2, HostRegisters.headers]
      rw [hid]
      by_cases hp : (headers p).1 = 1#8
      · rw [if_pos hp]
        refine meets_pure hstable ht fun u hu => ⟨hu, fun q => ⟨fun h => ?_, fun h => ?_⟩⟩
        · cases h with
          | here => rfl
          | later hne => exact absurd hp hne
        · obtain rfl := Option.some.inj h
          exact .here hp
      · rw [if_neg hp]
        refine meets_read hstable ht fun u hu => ?_
        have hnext : ExtendedRegister.nextPointer (u.extended p) = (headers p).2 := by
          rw [← hu.2, HostRegisters.headers]
        rw [hnext]
        -- the first legacy support capability is in the rest of the list
        refine (ih (hends.resolve_left hp) hu).mono fun found v hv => ⟨hv.1, fun q => ?_⟩
        rw [← hv.2 q]
        refine ⟨fun h => ?_, .later hp⟩
        cases h with
        | here hp' => exact absurd hp' hp
        | later _ h => exact h

/-- The write of the semaphore keeps the header of the capability. -/
theorem headers_setHcOsOwnedSemaphore (v : BitVec 32) :
    ExtendedRegister.capabilityId (USBLEGSUP.setHcOsOwnedSemaphore v) =
        ExtendedRegister.capabilityId v ∧
      ExtendedRegister.nextPointer (USBLEGSUP.setHcOsOwnedSemaphore v) =
        ExtendedRegister.nextPointer v :=
  ⟨BitField.get_set_of_disjoint v 1#1 (by omega) (by omega),
    BitField.get_set_of_disjoint v 1#1 (by omega) (by omega)⟩

/-- It sets one semaphore and leaves the other one to the firmware. -/
theorem semaphores_setHcOsOwnedSemaphore (v : BitVec 32) :
    USBLEGSUP.hcOsOwnedSemaphore (USBLEGSUP.setHcOsOwnedSemaphore v) = true ∧
      USBLEGSUP.hcBiosOwnedSemaphore (USBLEGSUP.setHcOsOwnedSemaphore v) =
        USBLEGSUP.hcBiosOwnedSemaphore v := by
  unfold USBLEGSUP.hcOsOwnedSemaphore USBLEGSUP.hcBiosOwnedSemaphore
    USBLEGSUP.setHcOsOwnedSemaphore
  rw [BitField.getLsbD_set_bit v 24 1#1 (by omega), if_pos rfl,
    BitField.getLsbD_set_bit v 24 1#1 (by omega), if_neg (by omega)]
  exact ⟨rfl, rfl⟩

theorem headers_setExtended (r : HostRegisters) (p : ℕ) :
    (r.setExtended p (USBLEGSUP.setHcOsOwnedSemaphore (r.extended p))).headers = r.headers := by
  funext q
  unfold HostRegisters.headers HostRegisters.setExtended
  by_cases hq : q = p
  · obtain ⟨hid, hnext⟩ := headers_setHcOsOwnedSemaphore (r.extended p)
    simp only [hq, Function.update_self, hid, hnext]
  · simp only [Function.update_of_ne hq]

/-- The question leaves the controller with its owner. -/
theorem firmwareOwns_setExtended {p : ℕ} (howns : FirmwareOwns first r) :
    FirmwareOwns first
      (r.setExtended p (USBLEGSUP.setHcOsOwnedSemaphore (r.extended p))) := by
  obtain ⟨q, hq, hbios⟩ := howns
  refine ⟨q, by rwa [headers_setExtended], ?_⟩
  by_cases hqp : q = p
  · rw [hqp, HostRegisters.extended_setExtended_self, (semaphores_setHcOsOwnedSemaphore _).2, ← hqp]
    exact hbios
  · rw [r.extended_setExtended_of_ne _ hqp]
    exact hbios

/-- The firmware is asked once, and no other capability is touched. -/
theorem takeOwnership_meets (hanswers : Answering first answers) {found : Option ℕ}
    (hfound : ∀ p, LegacySupport headers first p ↔ found = some p)
    (hr : AtStart first r ∧ r.headers = headers) :
    Meets (startContract first err memory answers) (fun _ t => Released first t ∧ Owned first t)
      (takeOwnership found) r := by
  have hstable : Stable (HostStep first) fun r => AtStart first r ∧ r.headers = headers :=
    stable_atStart.and (C := startContract first err memory answers) stable_headers
  have hasked : Stable (HostStep first) fun r => Released first r ∧ Owned first r :=
    stable_released.and (C := startContract first err memory answers) stable_owned
  -- there is no other capability that would have to be owned or let go
  have howned : ∀ {t : HostRegisters}, t.headers = headers →
      (∀ p, found = some p → USBLEGSUP.hcOsOwnedSemaphore (t.extended p) = true) →
      Owned first t := by
    intro t ht hall p hp
    rw [ht, hfound] at hp
    exact hall p hp
  have hletGo : ∀ {t : HostRegisters}, t.headers = headers →
      (∀ p, found = some p → USBLEGSUP.hcBiosOwnedSemaphore (t.extended p) = false) →
      ¬ FirmwareOwns first t := by
    rintro t ht hall ⟨p, hp, hbios⟩
    rw [ht, hfound] at hp
    exact Bool.noConfusion ((hall p hp).symm.trans hbios)
  cases found with
  | none =>
    refine meets_pure hstable hr fun t ht => ?_
    have hfree : ¬ FirmwareOwns first t := hletGo ht.2 nofun
    exact ⟨⟨ht.1.fresh hfree, hfree⟩, howned ht.2 nofun⟩
  | some p =>
    have hp : LegacySupport headers first p := (hfound p).mpr rfl
    refine meets_read hstable hr fun t ht => ?_
    have hpt : LegacySupport t.headers first p := ht.2 ▸ hp
    by_cases hset : USBLEGSUP.hcOsOwnedSemaphore (t.extended p) = true
    · rw [if_pos hset]
      have hall : Owned first t := howned ht.2 fun q hq => Option.some.inj hq ▸ hset
      have hfree : ¬ FirmwareOwns first t := fun howns =>
        Bool.noConfusion ((ht.1.unasked howns p hpt).symm.trans hset)
      exact meets_pure hasked ⟨⟨ht.1.fresh hfree, hfree⟩, hall⟩ fun u hu => hu
    · rw [if_neg hset]
      rw [Bool.not_eq_true] at hset
      -- until it is asked, the firmware leaves the word alone
      have hkept : Stable (HostStep first) fun u =>
          (AtStart first u ∧ u.headers = headers) ∧ u.extended p = t.extended p := by
        intro u u' hu h
        refine ⟨hstable u u' hu.1 h, ?_⟩
        rw [h.untouched p (by rw [hu.1.2]; exact hp) (by rw [hu.2, hset]), hu.2]
      refine meets_write hkept ⟨ht, rfl⟩ (fun u hu => ?_) fun u hu => ?_
      · rw [← hu.2]
        have hasks : Asks first u
            (u.setExtended p (USBLEGSUP.setHcOsOwnedSemaphore (u.extended p))) :=
          ⟨p, hu.1.2 ▸ hp, rfl⟩
        exact {
          firmware := fun _ => .inr hasks
          extended := .inr hasks
          reset := .inl
          settings := .inl rfl
          run := .inl }
      · rw [← hu.2]
        have hheaders := (headers_setExtended u p).trans hu.1.2
        have hnow : Owned first (u.setExtended p
            (USBLEGSUP.setHcOsOwnedSemaphore (u.extended p))) := by
          refine howned hheaders fun q hq => ?_
          obtain rfl := Option.some.inj hq
          rw [HostRegisters.extended_setExtended_self]
          exact (semaphores_setHcOsOwnedSemaphore _).1
        have hfresh : ¬ FirmwareOwns first (u.setExtended p
            (USBLEGSUP.setHcOsOwnedSemaphore (u.extended p))) → Fresh (u.setExtended p
            (USBLEGSUP.setHcOsOwnedSemaphore (u.extended p))) := by
          intro hfree
          have hbefore := hu.1.1.fresh (mt firmwareOwns_setExtended hfree)
          exact ⟨hbefore.ready, hbefore.coherent⟩
        have hwait : Stable (HostStep first) fun r =>
            ((¬ FirmwareOwns first r → Fresh r) ∧ Owned first r) ∧ r.headers = headers :=
          fun v v' hv h => ⟨⟨h.fresh hv.1.1, h.asked hv.1.2⟩, h.headers.trans hv.2⟩
        refine meets_wait_last hwait ⟨⟨hfresh, hnow⟩, hheaders⟩ (hanswers.handsOver p)
          (fun v hv => ⟨hv.2 ▸ hp, hv.1.2 p (hv.2 ▸ hp)⟩) fun v hv hready => ?_
        have hbios : USBLEGSUP.hcBiosOwnedSemaphore (v.extended p) = false := by
          rw [ownedByOs, Bool.and_eq_true, Bool.not_eq_true'] at hready
          exact hready.1
        have hfree : ¬ FirmwareOwns first v := hletGo hv.2 fun q hq => Option.some.inj hq ▸ hbios
        exact meets_pure hasked ⟨⟨hv.1.1 hfree, hfree⟩, hv.1.2⟩ fun w hw => hw

/-- Where the firmware owns the controller, it is asked for it and waited for. -/
theorem requestHCOwnership_meets (hanswers : Answering first answers) {cap : CapabilityRegisters}
    {fuel : ℕ} (hfirst : cap.firstExtended = first) (hends : SearchEnds r.headers fuel first)
    (hr : AtStart first r) :
    Meets (startContract first err memory answers) (fun _ t => Released first t ∧ Owned first t)
      (requestHCOwnership fuel cap) r := by
  subst hfirst
  refine (findLegacySupport_meets hends ⟨hr, rfl⟩).bind fun found t ht => ?_
  exact takeOwnership_meets hanswers ht.2 ht.1

/-! ## The controller is halted and reset -/

/-- The command does not run the controller and asks for no reset. -/
theorem haltCommand_bits {v : BitVec 32} {b : Bool} (hreset : v.getLsbD 1 = false)
    (hrun : b = true → v.getLsbD 0 = false) :
    (haltCommand v b).getLsbD 0 = false ∧ (haltCommand v b).getLsbD 1 = false := by
  unfold haltCommand
  cases b with
  | true =>
    simp (disch := omega) only [BitField.getLsbD_set_bit, Nat.reduceEqDiff, reduceIte, hreset,
      hrun rfl, and_self]
  | false =>
    simp (disch := omega) only [BitField.getLsbD_set_bit, Nat.reduceEqDiff, Bool.false_eq_true,
      reduceIte, hreset, BitVec.getLsbD_zero, and_self]

/-- The controller is halted, whether it ran or not. -/
theorem haltController_meets (hanswers : Answering first answers)
    (hr : Released first r ∧ Owned first r) :
    Meets (startContract first err memory answers) (fun _ t => Idle first t ∧ Owned first t)
      haltController r := by
  have hfresh : Stable (HostStep first) fun r => Released first r ∧ Owned first r :=
    stable_released.and (C := startContract first err memory answers) stable_owned
  have hidle : Stable (HostStep first) fun r => Idle first r ∧ Owned first r :=
    stable_idle.and (C := startContract first err memory answers) stable_owned
  refine meets_read hfresh hr fun t ht => ?_
  -- the register stays as it was read
  have hkept : Stable (HostStep first) fun u =>
      (Released first u ∧ Owned first u) ∧ u.usbcmd = t.usbcmd :=
    fun u u' hu h => ⟨hfresh u u' hu.1 h,
      ((h.controller hu.1.1.letGo).usbcmd hu.1.1.ready).trans hu.2⟩
  refine meets_read hkept ⟨ht, rfl⟩ fun u hu => ?_
  have hreset : t.usbcmd.getLsbD 1 = false := by
    rw [← hu.2, ← Bool.not_eq_true]
    exact fun h => hu.1.1.ready (.inl h)
  obtain ⟨hstop, hnoreset⟩ := haltCommand_bits (b := u.hostControllerHalted) hreset fun h => by
    rw [← hu.2]
    exact hu.1.1.coherent h
  refine meets_write hkept hu (fun w hw => ?_) fun w hw => ?_
  · exact {
      firmware := fun howns => absurd howns hw.1.1.letGo
      extended := .inl rfl
      reset := fun h => Bool.noConfusion (hnoreset.symm.trans h)
      settings := .inl rfl
      run := fun h => Bool.noConfusion (hstop.symm.trans h) }
  · have hstopped : Stable (HostStep first) fun r =>
        (¬ FirmwareOwns first r ∧ ¬ r.Resetting ∧ r.runStop = false) ∧ Owned first r := by
      rintro x x' ⟨⟨hfree, hready, hstop⟩, howned⟩ h
      exact ⟨⟨h.letGo hfree, fun hresetting => hready ((h.controller hfree).resetting hresetting),
        ((h.controller hfree).runStop hready).trans hstop⟩, h.asked howned⟩
    have hready : ¬ HostRegisters.Resetting
        { w with usbcmd := haltCommand t.usbcmd u.hostControllerHalted } :=
      fun h => h.elim (fun hbit => Bool.noConfusion (hnoreset.symm.trans hbit))
        fun hbit => hw.1.1.ready (.inr hbit)
    refine meets_wait_last hstopped ⟨⟨hw.1.1.letGo, hready, hstop⟩, hw.1.2⟩ hanswers.halts
      (fun x hx => hx.1) fun x hx hhalted => ?_
    obtain ⟨⟨hfree, hready, hstop⟩, howned⟩ := hx
    exact meets_pure hidle ⟨⟨hfree, hready, hhalted, hstop⟩, howned⟩ fun y hy => hy

/-- The reset is asked of a halted controller and leaves one. -/
theorem resetController_meets (hanswers : Answering first answers)
    (hr : Idle first r ∧ Owned first r) :
    Meets (startContract first err memory answers) (fun _ t => Idle first t) resetController r := by
  have hidle : Stable (HostStep first) fun r => Idle first r ∧ Owned first r :=
    stable_idle.and (C := startContract first err memory answers) stable_owned
  have hreset : Stable (HostStep first) fun r =>
      ¬ FirmwareOwns first r ∧ (r.Resetting ∨ Idle first r) := by
    rintro x x' ⟨hfree, hx⟩ h
    refine ⟨h.letGo hfree, ?_⟩
    rcases hx with hx | hx
    · by_cases hx' : x'.Resetting
      · exact .inl hx'
      · obtain ⟨hhalted, hstop⟩ := (h.controller hfree).reset hx hx'
        exact .inr ⟨h.letGo hfree, hx', hhalted, hstop⟩
    · exact .inr (h.idle hx)
  have hdone : Stable (HostStep first) fun r =>
      r.hostControllerReset = false ∧ ¬ FirmwareOwns first r ∧ (r.Resetting ∨ Idle first r) := by
    intro x x' hx h
    refine ⟨?_, hreset x x' hx.2 h⟩
    rw [← Bool.not_eq_true]
    exact fun h' => absurd ((h.controller hx.2.1).resetRequest h') (by rw [hx.1]; decide)
  refine meets_read hidle hr fun t ht => ?_
  have hstop : (BitField.set t.usbcmd 1 1#1).getLsbD 0 = false := by
    rw [BitField.getLsbD_set_bit _ 1 1#1 (by omega), if_neg (by omega)]
    exact ht.1.stopped
  refine meets_write hidle ht (fun u hu => ?_) fun u hu => ?_
  · exact {
      firmware := fun howns => absurd howns hu.1.letGo
      extended := .inl rfl
      reset := fun _ => .inr ⟨hu.1, hstop, hu.2⟩
      settings := .inl rfl
      run := fun h => Bool.noConfusion (hstop.symm.trans h) }
  · have hrequest : HostRegisters.Resetting { u with usbcmd := BitField.set t.usbcmd 1 1#1 } := by
      refine .inl ?_
      show (BitField.set t.usbcmd 1 1#1).getLsbD 1 = true
      rw [BitField.getLsbD_set_bit _ 1 1#1 (by omega), if_pos rfl]
      rfl
    refine meets_wait hreset ⟨hu.1.letGo, .inl hrequest⟩ hanswers.resets (fun _ hx => hx)
      fun x hx hx' => ?_
    refine meets_wait_last hdone ⟨by simpa [resetDone] using hx', hx⟩ hanswers.getsReady
      (fun _ hy => hy) fun y hy hy' => ?_
    have hready : ¬ y.Resetting := by
      rintro (h | h)
      · exact absurd h (by rw [hy.1]; decide)
      · exact absurd h (by simpa [controllerReady] using hy')
    exact meets_pure stable_idle (hy.2.2.resolve_left hready) fun z hz => hz

/-! ## The controller is told of its memory -/

/-- A write that leaves everything but the settings of the memory and the interrupts as it is. -/
structure Setting (r r' : HostRegisters) : Prop where
  extended : r'.extended = r.extended
  usbsts : r'.usbsts = r.usbsts
  runStop : r'.runStop = r.runStop
  hostControllerReset : r'.hostControllerReset = r.hostControllerReset

/-- A setting does not run the controller. -/
theorem Setting.idle (h : Setting r r') (hr : Idle first r) : Idle first r' where
  letGo := by
    have hletGo := hr.letGo
    unfold FirmwareOwns HostRegisters.headers at hletGo ⊢
    rwa [h.extended]
  ready hresetting := hr.ready (hresetting.imp (fun hreset => h.hostControllerReset ▸ hreset)
    fun hready => by
      unfold HostRegisters.controllerNotReady at hready ⊢
      rwa [h.usbsts] at hready)
  halted := by
    have hhalted := hr.halted
    unfold HostRegisters.hostControllerHalted at hhalted ⊢
    rwa [h.usbsts]
  stopped := h.runStop.trans hr.stopped

/-- Settings may be written while the controller is idle. -/
theorem Setting.guarantee (h : Setting r r') (hr : Idle first r) :
    StartGuarantee first err memory r r' where
  firmware howns := absurd howns hr.letGo
  extended := .inl h.extended
  reset h' := .inl (h.hostControllerReset ▸ h')
  settings := .inr hr
  run h' := .inl (h.runStop ▸ h')

section Write

variable {α : Type} {post : α → HostRegisters → Prop} {P Q : HostSettings → Prop}
  {effect : HostRegisters → HostRegisters} {k : PUnit → DeviceProgram HostRegisters α}

/-- A write of a setting, from what is known of the settings before. -/
theorem meets_setting (hr : Idle first r ∧ P r.settings)
    (heffect : ∀ t, Idle first t → P t.settings → Setting t (effect t) ∧ Q (effect t).settings)
    (hk : ∀ t, Idle first t → Q t.settings →
      Meets (startContract first err memory answers) post (k ⟨⟩) t) :
    Meets (startContract first err memory answers) post (DeviceProgram.write effect >>= k) r := by
  refine meets_write (stable_settings stable_idle (fun _ ht => ht.free) P) hr ?_ ?_
  · intro t ht
    exact (heffect t ht.1 ht.2).1.guarantee ht.1
  · intro t ht
    obtain ⟨hsetting, hQ⟩ := heffect t ht.1 ht.2
    exact hk _ (hsetting.idle ht.1) hQ

/-- The same for the last write of a function. -/
theorem meets_setting_last {post : PUnit → HostRegisters → Prop} (hr : Idle first r ∧ P r.settings)
    (heffect : ∀ t, Idle first t → P t.settings → Setting t (effect t) ∧ Q (effect t).settings)
    (hpost : ∀ t, Idle first t → Q t.settings → post ⟨⟩ t) :
    Meets (startContract first err memory answers) post (DeviceProgram.write effect) r :=
  meets_setting (k := pure) hr heffect fun _ hidle hQ =>
    meets_pure (stable_settings stable_idle (fun _ ht => ht.free) Q) ⟨hidle, hQ⟩
      fun u hu => hpost u hu.1 hu.2

/-- A read leaves what is known of the settings as it is. -/
theorem meets_idle_read {β : Type} {f : HostRegisters → β}
    {k : β → DeviceProgram HostRegisters α} (hr : Idle first r ∧ P r.settings)
    (hk : ∀ t, Idle first t → P t.settings →
      Meets (startContract first err memory answers) post (k (f t)) t) :
    Meets (startContract first err memory answers) post (DeviceProgram.read f >>= k) r :=
  meets_read (stable_settings stable_idle (fun _ ht => ht.free) P) hr
    fun t ht => hk t ht.1 ht.2

end Write

/-! What the registers hold after the writes. -/

theorem toNat_mod_of_dvd {p : BitVec 64} (h : 64 ∣ p.toNat) (s : ℕ) (hs : 2 ^ s ∣ 64) :
    p.toNat % 2 ^ s = 0 := Nat.mod_eq_zero_of_dvd (hs.trans h)

/-- The upper half of the address is lost, so the array must lie below 4 GiB. -/
theorem dcbaap_eq {p : BitVec 64} (hp : 64 ∣ p.toNat) (hlow : p.toNat < 2 ^ 32) :
    DCBAAP_Bitmap.deviceContextBaseAddressArrayPointer.setPointer 0#64 p = p := by
  apply BitVec.eq_of_getLsbD_eq
  intro i hi
  show (BitField.set 0#64 6 ((p >>> 6).setWidth 26)).getLsbD i = _
  rw [BitField.getLsbD_set 0#64 6 _ hi]
  by_cases hfield : 6 ≤ i ∧ i < 6 + 26
  · rw [if_pos hfield, BitVec.getLsbD_setWidth, BitVec.getLsbD_ushiftRight,
      show 6 + (i - 6) = i by omega, decide_eq_true (show i - 6 < 26 by omega), Bool.true_and]
    rfl
  · rw [if_neg hfield, BitVec.getLsbD_zero]
    symm
    by_cases hi' : i < 6
    · exact PointerField.getLsbD_aligned (toNat_mod_of_dvd hp 6 (by decide)) hi'
    · have hle : 2 ^ 32 ≤ 2 ^ i := Nat.pow_le_pow_right (by decide) (by omega)
      exact Nat.testBit_lt_two_pow (Nat.lt_of_lt_of_le hlow hle)

theorem crcr_cycle (v : BitVec 64) :
    (BitField.set (BitField.set (BitField.set v 0 1#1) 1 0#1) 2 0#1).getLsbD 0 = true := by
  simp (disch := omega) only [BitField.getLsbD_set_bit, Nat.reduceEqDiff, reduceIte]
  rfl

/-- A pointer in `CRCR`, but for the bit of the controller. -/
theorem crcr_bits {raw p : BitVec 64} (hcycle : raw.getLsbD 0 = true) (hp : 64 ∣ p.toNat) :
    (BitField.set (CRCR_Bitmap.commandRingPointer.setPointer raw p) 3 0#1).getLsbD 0 = true ∧
      CRCR_Bitmap.commandRingPointer.pointer
        (BitField.set (CRCR_Bitmap.commandRingPointer.setPointer raw p) 3 0#1) = p := by
  constructor
  · show (BitField.set (BitField.set raw 6 ((p >>> 6).setWidth 58)) 3 0#1).getLsbD 0 = true
    rw [BitField.getLsbD_set_bit _ 3 0#1 (by omega), if_neg (by omega),
      BitField.getLsbD_set_of_outside raw 6 _ (by omega) (by omega), hcycle]
  · show PointerField.shiftLeft (BitField.get (BitField.set (BitField.set raw 6
      ((p >>> 6).setWidth 58)) 3 0#1) 6 58) 6 = p
    rw [BitField.get_set_of_disjoint _ 0#1 (by omega) (by omega),
      BitField.get_set raw _ (by omega)]
    exact PointerField.shiftLeft_wide (by omega) (by omega)
      (toNat_mod_of_dvd hp 6 (by decide))

theorem erstsz_size (v : BitVec 32) : BitField.get (ERSTSZ.setSize v 1#16) 0 16 = 1#16 := by
  apply BitVec.eq_of_getLsbD_eq
  intro i hi
  unfold BitField.get ERSTSZ.setSize
  rw [BitVec.getLsbD_extractLsb', BitVec.getLsbD_append, decide_eq_true hi, Bool.true_and,
    Nat.zero_add, if_pos hi]

theorem erstba_pointer (v p : BitVec 64) (hp : 64 ∣ p.toNat) :
    ERSTBA_Bitmap.eventRingSegmentTableBaseAddress.pointer (ERSTBA.setPointer v p) = p := by
  have hset := congrArg ERSTBA_Bitmap.eventRingSegmentTableBaseAddress.pointer
    (ERSTBA_Bitmap.setPointer_eq v p)
  have hpointer := PointerField.pointer_setPointer
    (f := ERSTBA_Bitmap.eventRingSegmentTableBaseAddress) v p
  exact hset.symm.trans (hpointer.trans
    (PointerField.shiftLeft_wide (by decide) (by decide) (toNat_mod_of_dvd hp 6 (by decide))))

theorem erdp_pointer (v p : BitVec 64) (hp : 64 ∣ p.toNat) :
    ERDP.pointer (ERDP.setPointer v p) = p := by
  have hset := congrArg ERDP_Bitmap.eventRingDequeuePointer.pointer
    (ERDP_Bitmap.setPointer_eq v p)
  have hpointer := PointerField.pointer_setPointer
    (f := ERDP_Bitmap.eventRingDequeuePointer) v p
  have hread := ERDP_Bitmap.pointer_eq (ERDP.setPointer v p)
  exact hread.symm.trans (hset.symm.trans (hpointer.trans
    (PointerField.shiftLeft_wide (by decide) (by decide) (toNat_mod_of_dvd hp 4 (by decide)))))

/-! The stages of `setUpController`. -/

/-- The number of slots is set. -/
def HasSlots (c : HostSettings) : Prop := BitField.get c.config 0 8 = Controller.kDeviceSize

/-- The device context array is set. -/
def HasContexts (memory : HostMemory) (c : HostSettings) : Prop :=
  HasSlots c ∧ (memory.deviceContexts.toNat < 2 ^ 32 → c.dcbaap = memory.deviceContexts)

/-- The command ring is set. -/
def HasCommandRing (memory : HostMemory) (c : HostSettings) : Prop :=
  HasContexts memory c ∧ c.crcr.getLsbD 0 = true ∧
    CRCR_Bitmap.commandRingPointer.pointer c.crcr = memory.commandRing

/-- The event ring is set. -/
def HasEventRing (memory : HostMemory) (c : HostSettings) : Prop :=
  HasCommandRing memory c ∧ BitField.get c.erstsz 0 16 = 1#16 ∧
    c.dequeuePointer = memory.eventRing ∧
    ERSTBA_Bitmap.eventRingSegmentTableBaseAddress.pointer c.erstba = memory.segmentTable

/-- The number of slots comes first. -/
theorem setMaxSlotsEnabled_meets (hr : Idle first r) :
    Meets (startContract first err memory answers) (fun _ t => Idle first t ∧ HasSlots t.settings)
      setMaxSlotsEnabled r := by
  refine meets_idle_read (P := fun _ => True) ⟨hr, trivial⟩ fun t ht _ => ?_
  refine meets_setting_last (P := fun _ => True) (Q := HasSlots) ⟨ht, trivial⟩
    (fun u _ _ => ⟨⟨rfl, rfl, rfl, rfl⟩, ?_⟩) fun _ hu hQ => ⟨hu, hQ⟩
  exact BitField.get_set _ _ (by decide)

/-- Then the device context array. -/
theorem registerDeviceContexts_meets (hdvd : 64 ∣ memory.deviceContexts.toNat)
    (hr : Idle first r ∧ HasSlots r.settings) :
    Meets (startContract first err memory answers)
      (fun _ t => Idle first t ∧ HasContexts memory t.settings)
      (registerDeviceContexts memory.deviceContexts) r :=
  meets_setting_last (Q := HasContexts memory) hr
    (fun _ _ hslots => ⟨⟨rfl, rfl, rfl, rfl⟩, hslots, dcbaap_eq hdvd⟩)
    fun _ hidle hQ => ⟨hidle, hQ⟩

/-- Then the command ring. -/
theorem registerCommandRing_meets (hdvd : 64 ∣ memory.commandRing.toNat)
    (hr : Idle first r ∧ HasContexts memory r.settings) :
    Meets (startContract first err memory answers)
      (fun _ t => Idle first t ∧ HasCommandRing memory t.settings)
      (registerCommandRing memory.commandRing) r := by
  refine meets_idle_read hr fun t ht hcontexts => ?_
  exact meets_setting_last (Q := HasCommandRing memory) ⟨ht, hcontexts⟩
    (fun _ _ hcontexts => ⟨⟨rfl, rfl, rfl, rfl⟩, hcontexts, crcr_bits (crcr_cycle _) hdvd⟩)
    fun _ hidle hQ => ⟨hidle, hQ⟩

/-- Then the event ring with its segment table. -/
theorem registerEventRing_meets (hevent : 64 ∣ memory.eventRing.toNat)
    (hsegment : 64 ∣ memory.segmentTable.toNat)
    (hr : Idle first r ∧ HasCommandRing memory r.settings) :
    Meets (startContract first err memory answers)
      (fun _ t => Idle first t ∧ HasEventRing memory t.settings)
      (registerEventRing memory.eventRing memory.segmentTable) r := by
  refine meets_idle_read hr fun t ht hring => ?_
  refine meets_setting (Q := fun c => HasCommandRing memory c ∧ BitField.get c.erstsz 0 16 = 1#16)
    ⟨ht, hring⟩ (fun _ _ hring => ⟨⟨rfl, rfl, rfl, rfl⟩, hring, erstsz_size _⟩) fun t ht hsize => ?_
  refine meets_idle_read
    (P := fun c => HasCommandRing memory c ∧ BitField.get c.erstsz 0 16 = 1#16) ⟨ht, hsize⟩
    fun t ht hsize => ?_
  refine meets_setting
    (P := fun c => HasCommandRing memory c ∧ BitField.get c.erstsz 0 16 = 1#16)
    (Q := fun c => (HasCommandRing memory c ∧ BitField.get c.erstsz 0 16 = 1#16) ∧
      c.dequeuePointer = memory.eventRing)
    ⟨ht, hsize⟩ (fun _ _ hsize => ⟨⟨rfl, rfl, rfl, rfl⟩, hsize, erdp_pointer _ _ hevent⟩)
    fun t ht hdequeue => ?_
  refine meets_idle_read
    (P := fun c => (HasCommandRing memory c ∧ BitField.get c.erstsz 0 16 = 1#16) ∧
      c.dequeuePointer = memory.eventRing) ⟨ht, hdequeue⟩ fun t ht hdequeue => ?_
  exact meets_setting_last
    (P := fun c => (HasCommandRing memory c ∧ BitField.get c.erstsz 0 16 = 1#16) ∧
      c.dequeuePointer = memory.eventRing) (Q := HasEventRing memory) ⟨ht, hdequeue⟩
    (fun _ _ h => ⟨⟨rfl, rfl, rfl, rfl⟩, h.1.1, h.1.2, h.2, erstba_pointer _ _ hsegment⟩)
    fun _ hidle hQ => ⟨hidle, hQ⟩

/-- With the interrupts all is set up. -/
theorem enableInterrupter_meets (hr : Idle first r ∧ HasEventRing memory r.settings) :
    Meets (startContract first err memory answers)
      (fun _ t => Idle first t ∧ SetUp memory t.settings) enableInterrupter r := by
  refine meets_idle_read hr fun t ht hring => ?_
  refine meets_setting (Q := fun c => HasEventRing memory c ∧ c.interruptEnable = true)
    ⟨ht, hring⟩ (fun u _ hring => ⟨⟨rfl, rfl, rfl, rfl⟩, hring, ?_⟩) fun t ht himan => ?_
  · show (BitField.set _ 0 _ : BitVec 32).getLsbD 1 = true
    simp (disch := omega) only [BitField.getLsbD_set_bit, Nat.reduceEqDiff, reduceIte]
    rfl
  · -- the register was read while the controller was idle
    refine meets_idle_read (P := fun c => HasEventRing memory c ∧ c.interruptEnable = true)
      ⟨ht, himan⟩ fun t ht himan => ?_
    have hbit : ∀ i, i < 32 → (BitField.set t.usbcmd 2 1#1).getLsbD i =
        if i = 2 then true else t.usbcmd.getLsbD i := by
      intro i hi
      rw [BitField.getLsbD_set_bit _ 2 1#1 hi]
      rfl
    refine meets_setting_last (P := fun c => HasEventRing memory c ∧ c.interruptEnable = true)
      (Q := SetUp memory) ⟨ht, himan⟩ (fun u hu h => ⟨⟨rfl, rfl, ?_, ?_⟩, ?_⟩)
      fun _ hidle hQ => ⟨hidle, hQ⟩
    · show (BitField.set t.usbcmd 2 1#1).getLsbD 0 = _
      rw [hbit 0 (by omega), if_neg (by omega), hu.stopped]
      exact ht.stopped
    · show (BitField.set t.usbcmd 2 1#1).getLsbD 1 = _
      have hno : ∀ {x : HostRegisters}, Idle first x → x.hostControllerReset = false :=
        fun hx => Bool.eq_false_iff.mpr fun h => hx.ready (.inl h)
      rw [hbit 1 (by omega), if_neg (by omega), hno hu]
      exact hno ht
    · obtain ⟨⟨⟨⟨hslots, hcontexts⟩, hcycle, hcommand⟩, hsize, hdequeue, htable⟩, henable⟩ := h
      exact ⟨hslots, hcontexts, hcycle, hcommand, hsize, htable, hdequeue, henable,
        hbit 2 (by omega)⟩

/-- What `Initialize` leaves behind from the reset on. -/
def Left (first : Option ℕ) (err : Error) (memory : HostMemory) (e : Error) (r : HostRegisters) :
    Prop :=
  e = err ∧ Idle first r ∧ (err = .kSuccess → SetUp memory r.settings)

theorem stable_left {e : Error} (he : e = err) :
    Stable (HostStep first) fun r =>
      Idle first r ∧ (err = .kSuccess → SetUp memory r.settings) ∧ e = err :=
  fun r r' hr h => ⟨h.idle hr.1, fun hsuccess => by
    rw [(h.controller hr.1.letGo).settings hr.1.ready]
    exact hr.2.1 hsuccess, he⟩

/-- A failure is returned before the controller is told of everything. -/
theorem failed_meets {e : Error} (he : e = err) (hfailed : e ≠ .kSuccess) (hr : Idle first r) :
    Meets (startContract first err memory answers) (Left first err memory) (pure e) r :=
  meets_pure (stable_left he) ⟨hr, fun h => absurd (he.trans h) hfailed, he⟩
    fun _ ht => ⟨he, ht.1, ht.2.1⟩

theorem enableWith_meets (haligned : memory.Aligned) (herr : err = .kSuccess)
    (hr : Idle first r ∧ HasCommandRing memory r.settings) :
    Meets (startContract first err memory answers) (Left first err memory)
      (enableWith memory) r := by
  obtain ⟨hcontexts, hcommand, hevent, hsegment⟩ := haligned
  refine (registerEventRing_meets hevent hsegment hr).bind fun _ t ht => ?_
  refine (enableInterrupter_meets ht).bind fun _ u hu => ?_
  exact meets_pure (stable_left herr.symm) ⟨hu.1, fun _ => hu.2, herr.symm⟩
    fun _ hv => ⟨herr.symm, hv.1, hv.2.1⟩

section Pool

variable {s s₁ s₂ s₃ : PoolLog} {e e' : Error} {contexts ring buf erst : BitVec 64}

/-- A null pointer ends the initialisation with an error; else the event ring is registered. -/
theorem initializeEventRing_meets
    (hbuf : s.allocArray (BitVec.ofNat 64 sizeofTRB) 32#64 64#32 0x10000#32 = (buf, s₁))
    (herst : (s₁.use buf).allocArray sizeofEventRingSegmentTableEntry 1#64 64#32 0x10000#32 =
      (erst, s₂))
    (hmemory : memory = ⟨contexts, ring, buf, erst⟩) (haligned : memory.Aligned)
    (herr : (s.eventRingInitialize 32#64).1 = err)
    (hr : Idle first r ∧ HasCommandRing memory r.settings) :
    Meets (startContract first err memory answers) (Left first err memory)
      (initializeEventRing s contexts ring) r := by
  unfold initializeEventRing
  rw [PoolLog.eventRingInitialize, hbuf] at herr
  dsimp only at herr ⊢
  rw [hbuf]
  dsimp only
  rw [herst]
  by_cases hnull : buf = nullptr
  · rw [if_pos hnull] at herr ⊢
    exact failed_meets herr (by decide) hr.1
  · rw [if_neg hnull, PoolLog.eventRingTable, herst] at herr
    rw [if_neg hnull]
    by_cases hnull' : erst = nullptr
    · rw [if_pos hnull'] at herr ⊢
      exact failed_meets herr (by decide) hr.1
    · rw [if_neg hnull'] at herr ⊢
      rw [← hmemory]
      exact enableWith_meets haligned herr.symm hr

theorem initializeRings_error (hcr : s.ringInitialize 32#64 = (e, ring, s₁))
    (her : (s₁.use ring).eventRingInitialize 32#64 = (e', s₂)) :
    returnedError s.initializeRings = if e.failed then e else e' := by
  rw [PoolLog.initializeRings, hcr]
  by_cases hfailed : e.failed = true
  · rw [if_pos hfailed, if_pos hfailed]
    rfl
  · rw [if_neg hfailed, if_neg hfailed, her]
    rfl

theorem ringMemory_eq (hcr : s.ringInitialize 32#64 = (e, ring, s₁))
    (hbuf : (s₁.use ring).allocArray (BitVec.ofNat 64 sizeofTRB) 32#64 64#32 0x10000#32 =
      (buf, s₂))
    (herst : (s₂.use buf).allocArray sizeofEventRingSegmentTableEntry 1#64 64#32 0x10000#32 =
      (erst, s₃)) :
    ringMemory s contexts = ⟨contexts, ring, buf, erst⟩ := by
  unfold ringMemory
  rw [hcr]
  dsimp only
  rw [hbuf]
  dsimp only
  rw [herst]

/-- What follows the reset, by the two allocations that may fail. -/
theorem setUpController_meets {cap : CapabilityRegisters}
    (hlog : (s.scratchpad (PoolLog.maxScratchpadBuffers cap.hcsparams2)).use contexts = s₁)
    (hmemory : memory = ringMemory s₁ contexts) (haligned : memory.Aligned)
    (herr : returnedError s₁.initializeRings = err) (hr : Idle first r) :
    Meets (startContract first err memory answers) (Left first err memory)
      (setUpController s cap contexts) r := by
  rcases hcr : s₁.ringInitialize 32#64 with ⟨e, ring, s₂⟩
  rcases hbuf : (s₂.use ring).allocArray (BitVec.ofNat 64 sizeofTRB) 32#64 64#32 0x10000#32 with
    ⟨buf, s₃⟩
  rcases herst : (s₃.use buf).allocArray sizeofEventRingSegmentTableEntry 1#64 64#32
    0x10000#32 with ⟨erst, s₄⟩
  rcases her : (s₂.use ring).eventRingInitialize 32#64 with ⟨e', s₅⟩
  rw [ringMemory_eq hcr hbuf herst] at hmemory
  rw [initializeRings_error hcr her] at herr
  have hcontexts : memory.deviceContexts = contexts := by rw [hmemory]
  have hcommand : memory.commandRing = ring := by rw [hmemory]
  have hdvd : 64 ∣ memory.deviceContexts.toNat ∧ 64 ∣ memory.commandRing.toNat := by
    obtain ⟨h₁, h₂, -, -⟩ := haligned
    exact ⟨h₁, h₂⟩
  unfold setUpController
  refine (setMaxSlotsEnabled_meets hr).bind fun _ t ht => ?_
  have hregister : Meets (startContract first err memory answers) _
      (registerDeviceContexts memory.deviceContexts) t := registerDeviceContexts_meets hdvd.1 ht
  rw [hcontexts] at hregister
  refine hregister.bind fun _ u hu => ?_
  rw [hlog, hcr]
  dsimp only
  by_cases hfailed : e.failed = true
  · rw [if_pos hfailed] at herr ⊢
    exact failed_meets herr (fun h => absurd hfailed (by rw [h]; decide)) hu.1
  · rw [if_neg hfailed] at herr ⊢
    have hring : Meets (startContract first err memory answers) _
        (registerCommandRing memory.commandRing) u := registerCommandRing_meets hdvd.2 hu
    rw [hcommand] at hring
    refine hring.bind fun _ v hv => ?_
    exact initializeEventRing_meets hbuf herst hmemory haligned (by rw [her, herr]) hv

theorem initializeError_eq {hcsparams2 : BitVec 32}
    (hdevmgr : s.devmgrInitialize (Controller.kDeviceSize.setWidth 64) = (e, contexts, s₁)) :
    initializeError s hcsparams2 = if e.failed then e else
      returnedError ((s₁.scratchpad (PoolLog.maxScratchpadBuffers hcsparams2)).use
        contexts).initializeRings := by
  rw [initializeError, PoolLog.controllerInitialize, hdevmgr]
  exact apply_ite returnedError _ _ _

/-- `Initialize`, with what it returns. -/
theorem initializeController_meets {cap : CapabilityRegisters} {fuel : ℕ}
    (hanswers : Answering cap.firstExtended answers) (hs : s.pool.Sane)
    (hends : SearchEnds r.headers fuel cap.firstExtended) (hr : AtStart cap.firstExtended r)
    (hserved : FirmwareOwns cap.firstExtended r → DeviceManagerServed s)
    (herr : initializeError s cap.hcsparams2 = err)
    (hmemory : controllerMemory s cap.hcsparams2 = memory) :
    Meets (startContract cap.firstExtended err memory answers)
      (fun e t => e = err ∧ Released cap.firstExtended t ∧
        (err = .kSuccess → Idle cap.firstExtended t ∧ SetUp memory t.settings))
      (initializeController fuel s cap) r := by
  have haligned := controllerMemory_aligned hs cap.hcsparams2
  rw [hmemory] at haligned
  rcases hdevmgr : s.devmgrInitialize (Controller.kDeviceSize.setWidth 64) with
    ⟨e, contexts, s₁⟩
  rw [initializeError_eq hdevmgr] at herr
  rw [DeviceManagerServed, hdevmgr] at hserved
  rw [controllerMemory, ringLog, hdevmgr] at hmemory
  unfold initializeController
  rw [hdevmgr]
  dsimp only at hmemory ⊢
  by_cases hfailed : e.failed = true
  · rw [if_pos hfailed] at herr ⊢
    have hnot : ¬ err = .kSuccess := fun h => by
      rw [herr, h] at hfailed
      exact absurd hfailed (by decide)
    have hfree : ¬ FirmwareOwns cap.firstExtended r := fun howns =>
      Bool.noConfusion ((hserved howns).symm.trans hfailed)
    exact meets_pure stable_released ⟨hr.fresh hfree, hfree⟩
      fun t ht => ⟨herr, ht, fun h => absurd h hnot⟩
  · rw [if_neg hfailed] at herr ⊢
    refine (requestHCOwnership_meets hanswers rfl hends hr).bind fun _ t ht => ?_
    refine (haltController_meets hanswers ht).bind fun _ u hu => ?_
    refine (resetController_meets hanswers hu).bind fun _ v hv => ?_
    refine (setUpController_meets rfl hmemory.symm haligned herr hv).mono fun e w hw => ?_
    exact ⟨hw.1, hw.2.1.released, fun h => ⟨hw.2.1, hw.2.2 h⟩⟩

end Pool

/-! ## The controller is run -/

/-- The bit that runs the controller is not one of the settings. -/
theorem SetUp.run {c : HostSettings} (h : SetUp memory c) :
    SetUp memory { c with usbcmd := BitField.set c.usbcmd 0 1#1 } := by
  refine { h with interrupterEnable := ?_ }
  rw [BitField.getLsbD_set_bit _ 0 1#1 (by omega), if_neg (by omega)]
  exact h.interrupterEnable

/-- A controller that has started halts only when it is stopped. -/
theorem stable_running : Stable (HostStep first) (Running first err memory) := by
  intro z z' hz h
  have hstep := h.controller hz.letGo
  refine ⟨h.letGo hz.letGo, fun hresetting => hz.ready (hstep.resetting hresetting),
    (hstep.runStop hz.ready).trans hz.runStop, ?_, fun herr => ?_⟩
  · rw [← Bool.not_eq_true]
    exact fun hhalted => absurd (hstep.stopped hz.ready hz.runStop hhalted) (by
      rw [hz.notHalted]
      decide)
  · rw [hstep.settings hz.ready]
    exact hz.setUp herr

/-- The controller is run and leaves the halted state. -/
theorem runController_meets (hanswers : Answering first answers)
    (hr : Released first r ∧ (err = .kSuccess → Idle first r ∧ SetUp memory r.settings)) :
    Meets (startContract first err memory answers) (fun _ t => Running first err memory t)
      runController r := by
  have hreleased : Stable (HostStep first) fun r =>
      Released first r ∧ (err = .kSuccess → Idle first r ∧ SetUp memory r.settings) := by
    refine fun x x' hx h => ⟨h.released hx.1, fun herr => ?_⟩
    rw [(h.controller hx.1.letGo).settings hx.1.ready]
    exact ⟨h.idle (hx.2 herr).1, (hx.2 herr).2⟩
  refine meets_read hreleased hr fun t ht => ?_
  have hkept : Stable (HostStep first) fun u => (Released first u ∧
      (err = .kSuccess → Idle first u ∧ SetUp memory u.settings)) ∧ u.usbcmd = t.usbcmd :=
    fun u u' hu h => ⟨hreleased u u' hu.1 h,
      ((h.controller hu.1.1.letGo).usbcmd hu.1.1.ready).trans hu.2⟩
  have hbits : (BitField.set t.usbcmd 0 1#1).getLsbD 0 = true ∧
      (BitField.set t.usbcmd 0 1#1).getLsbD 1 = t.usbcmd.getLsbD 1 := by
    rw [BitField.getLsbD_set_bit _ 0 1#1 (by omega), BitField.getLsbD_set_bit _ 0 1#1 (by omega),
      if_pos rfl, if_neg (by omega)]
    exact ⟨rfl, rfl⟩
  refine meets_write hkept ⟨ht, rfl⟩ (fun u hu => ?_) fun u hu => ?_
  · exact {
      firmware := fun howns => absurd howns hu.1.1.letGo
      extended := .inl rfl
      reset := fun h => .inl (by
        show u.usbcmd.getLsbD 1 = true
        rw [hu.2, ← hbits.2]
        exact h)
      settings := .inl rfl
      run := fun _ => .inr hu.1.2 }
  · have hrunning : Stable (HostStep first) fun x =>
        (¬ FirmwareOwns first x ∧ ¬ x.Resetting ∧ x.runStop = true) ∧
          (err = .kSuccess → SetUp memory x.settings) := by
      rintro x x' ⟨⟨hfree, hready, hrun⟩, hsetUp⟩ h
      have hstep := h.controller hfree
      refine ⟨⟨h.letGo hfree, fun hresetting => hready (hstep.resetting hresetting),
        (hstep.runStop hready).trans hrun⟩, fun herr => ?_⟩
      rw [hstep.settings hready]
      exact hsetUp herr
    have hready : ¬ HostRegisters.Resetting { u with usbcmd := BitField.set t.usbcmd 0 1#1 } := by
      rintro (h | h)
      · refine hu.1.1.ready (.inl ?_)
        show u.usbcmd.getLsbD 1 = true
        rw [hu.2, ← hbits.2]
        exact h
      · exact hu.1.1.ready (.inr h)
    have hsetUp : err = .kSuccess → SetUp memory
        (HostRegisters.settings { u with usbcmd := BitField.set t.usbcmd 0 1#1 }) := by
      intro herr
      rw [← hu.2]
      exact (hu.1.2 herr).2.run
    refine meets_read hrunning ⟨⟨hu.1.1.letGo, hready, hbits.1⟩, hsetUp⟩ fun x hx => ?_
    refine meets_wait hrunning hx hanswers.starts (fun _ hy => hy.1) fun y hy hstarted => ?_
    obtain ⟨⟨hfree, hready, hrun⟩, hsetUp⟩ := hy
    have hnotHalted : y.hostControllerHalted = false := by simpa [started] using hstarted
    exact meets_pure stable_running ⟨hfree, hready, hrun, hnotHalted, hsetUp⟩ fun _ hz => hz

/-- The three functions one after the other. The kernel runs the controller whatever `Initialize`
has returned. -/
theorem startController_meets {s : PoolLog} {cap : CapabilityRegisters} {fuel : ℕ}
    (hanswers : Answering cap.firstExtended answers) (hs : s.pool.Sane)
    (hends : SearchEnds r.headers fuel cap.firstExtended) (hr : AtStart cap.firstExtended r)
    (hserved : FirmwareOwns cap.firstExtended r → DeviceManagerServed s)
    (herr : initializeError s cap.hcsparams2 = err)
    (hmemory : controllerMemory s cap.hcsparams2 = memory) :
    Meets (startContract cap.firstExtended err memory answers)
      (fun e t => e = err ∧ Running cap.firstExtended err memory t)
      (startController fuel s cap) r := by
  refine (initializeController_meets hanswers hs hends hr hserved herr hmemory).bind
    fun e t ht => ?_
  refine (runController_meets hanswers ht.2).bind fun _ u hu => ?_
  exact meets_pure stable_running hu fun v hv => ⟨ht.1, hv⟩

end Stages

end TommyOS.Usb
