import TommyOS.Usb.Port

/-!
# Bringing up a port

What the controller may do to a port while the driver brings it up, and that the driver touches
nothing but the reset and its two changes, in every interleaving.
-/

namespace TommyOS.Usb

open DeviceProgram

/-! ## What the controller may do -/

/-- A change other than the end of a reset. -/
def IsFault (i : ℕ) : Prop := i = 17 ∨ i = 18 ∨ i = 19 ∨ i = 20 ∨ i = 22 ∨ i = 23

/-- None of the seven change bits is set. -/
def NoChange (portsc : BitVec 32) : Prop := ∀ i, 17 ≤ i → i ≤ 23 → portsc.getLsbD i = false

/-- A step of the controller. The controls and the strobe belong to the driver, except that an
over-current may switch the power off. A change stays until it is acknowledged; the first one posts
an event. A reset ends with an enabled port, if nothing else has happened. -/
structure PortRegister.Step (r r' : PortRegister) : Prop where
  controls : ∀ i, i ≠ 9 → PORTSC.bits.controls.getLsbD i = true →
    r'.portsc.getLsbD i = r.portsc.getLsbD i
  strobe : PORTSC.portLinkStateWriteStrobe r'.portsc = PORTSC.portLinkStateWriteStrobe r.portsc
  changes : ∀ i, 17 ≤ i → i ≤ 23 → r.portsc.getLsbD i = true → r'.portsc.getLsbD i = true
  faults : r.faults ≤ r'.faults
  fault : ∀ i, IsFault i → r'.portsc.getLsbD i = true →
    r.portsc.getLsbD i = true ∨ r.faults < r'.faults
  connected : PORTSC.currentConnectStatus r.portsc = true →
    PORTSC.currentConnectStatus r'.portsc = true ∨ r.faults < r'.faults
  enabled : PORTSC.portEnabledDisabled r.portsc = true →
    PORTSC.portEnabledDisabled r'.portsc = true ∨ r.faults < r'.faults
  resetRequest : PORTSC.portReset r'.portsc = true → PORTSC.portReset r.portsc = true
  resetChange : PORTSC.portResetChange r'.portsc = true →
    PORTSC.portResetChange r.portsc = true ∨ PORTSC.portReset r'.portsc = false ∧
      PORTSC.portReset r.portsc = true
  completed : PORTSC.portReset r.portsc = true → PORTSC.portReset r'.portsc = false →
    (PORTSC.portResetChange r'.portsc = true ∧ PORTSC.portEnabledDisabled r'.portsc = true) ∨
      r.faults < r'.faults
  events : r.events ≤ r'.events
  event : NoChange r.portsc → ¬ NoChange r'.portsc → r.events < r'.events

/-! ## What the driver must respect -/

/-- An access of the driver leaves all bits alone but the reset, its two changes, and the power,
which a write may switch on again. It makes no change. -/
structure PortRegister.Guarantee (r r' : PortRegister) : Prop where
  others : ∀ i, i < 32 → i ≠ 4 → i ≠ 9 → i ≠ 17 → i ≠ 21 →
    r'.portsc.getLsbD i = r.portsc.getLsbD i
  changes : ∀ i, 17 ≤ i → i ≤ 23 → r'.portsc.getLsbD i = true → r.portsc.getLsbD i = true
  resetRequest : PORTSC.portReset r.portsc = true → PORTSC.portReset r'.portsc = true
  events : r'.events = r.events
  faults : r'.faults = r.faults

theorem PortRegister.Guarantee.refl (r : PortRegister) : r.Guarantee r :=
  ⟨fun _ _ _ _ _ _ => rfl, fun _ _ _ h => h, fun h => h, rfl, rfl⟩

/-- The waits that the controller answers: it ends a reset, and it posts the event that it owes when
there was no fault after the first `faults` ones. -/
def portContract (faults : ℕ) : Contract PortRegister where
  device := PortRegister.Step
  guarantee := PortRegister.Guarantee
  guarantee_refl := PortRegister.Guarantee.refl
  answers I ready := ready = Port.resetDone ∨
    ∃ events, ready = eventSince events ∧ ∀ r, I r → events < r.events ∨ faults < r.faults

/-! ## Masked writes -/

namespace PORTSC

/-- A mask of the driver: it keeps the controls, and no bit of a one. -/
structure Masks (keep action : BitVec 32) : Prop where
  keeps : bits.Keeps keep
  controls : bits.controls &&& ~~~keep = 0#32
  disjoint : bits.controls &&& action = 0#32
  strobe : action.getLsbD 16 = false

/-- The request for a reset, with the acknowledgement of the connect change. -/
theorem masks_reset : Masks 0x0e00c3e0#32 0x00020010#32 :=
  ⟨⟨by decide, by decide⟩, by decide, by decide, by decide⟩

/-- The acknowledgement of one change. -/
theorem masks_clear : ∀ bit, bit = 17 ∨ bit = 21 → Masks 0x0e01c3e0#32 (BitVec.twoPow 32 bit) := by
  rintro bit (rfl | rfl)
  · exact ⟨⟨by decide, by decide⟩, by decide, by decide, by decide⟩
  · exact ⟨⟨by decide, by decide⟩, by decide, by decide, by decide⟩

/-- The driver has read the register since a control but the power was last changed. -/
structure SeenAs (old portsc : BitVec 32) : Prop where
  controls : ∀ i, i ≠ 9 → bits.controls.getLsbD i = true → portsc.getLsbD i = old.getLsbD i
  strobe : portLinkStateWriteStrobe portsc = false

variable {old portsc keep action : BitVec 32}

/-- What a masked write does to each bit but the power. -/
theorem getLsbD_write (hmasks : Masks keep action) (hseen : SeenAs old portsc) {i : ℕ}
    (hi : i < 32) (hpower : i ≠ 9) :
    (write old ((portsc &&& keep) ||| action)).getLsbD i = (bits.act old action).getLsbD i := by
  have hstrobe : portLinkStateWriteStrobe ((portsc &&& keep) ||| action) = false := by
    have hread := hseen.strobe
    unfold portLinkStateWriteStrobe at hread ⊢
    rw [BitVec.getLsbD_or, BitVec.getLsbD_and, hread, hmasks.strobe, Bool.false_and, Bool.or_false]
  unfold write
  rw [hstrobe, if_neg (by decide)]
  apply bits.getLsbD_write_masked hmasks.keeps hmasks.disjoint hi
  intro hcontrol
  refine ⟨?_, hseen.controls i hpower hcontrol⟩
  have hkept := ControlRegister.and_bit_false hmasks.controls hcontrol
  rw [BitVec.getLsbD_not, decide_eq_true hi, Bool.true_and] at hkept
  exact Bool.not_eq_eq_eq_not.mp hkept

/-- The write of `Reset` acts on two bits. -/
theorem getLsbD_resetAction : ∀ i < 32, (0x00020010#32).getLsbD i = true ↔ i = 4 ∨ i = 17 := by
  decide

/-- `portsc.bits.bitname = 1`. -/
theorem set_bit (portsc : BitVec 32) (bit : ℕ) :
    BitField.set portsc bit 1#1 = portsc ||| BitVec.twoPow 32 bit := by
  apply BitVec.eq_of_getLsbD_eq
  intro i hi
  rw [BitField.getLsbD_set_bit _ _ _ hi, BitVec.getLsbD_or, BitVec.getLsbD_twoPow]
  by_cases h : i = bit
  · rw [if_pos h, decide_eq_true h.symm, decide_eq_true (show bit < 32 by omega)]
    simp
  · rw [if_neg h, decide_eq_false (Ne.symm h), Bool.and_false, Bool.or_false]

end PORTSC

/-! ## The accesses respect the guarantee -/

section Guarantee

variable {r : PortRegister} {portsc keep action : BitVec 32}

/-- A write of the driver: it makes the request and acknowledges the changes of its action. -/
theorem guarantee_write (hmasks : PORTSC.Masks keep action) (hseen : PORTSC.SeenAs r.portsc portsc)
    (haction : ∀ i, i < 32 → i ≠ 4 → i ≠ 17 → i ≠ 21 → action.getLsbD i = false) :
    r.Guarantee { r with portsc := PORTSC.write r.portsc ((portsc &&& keep) ||| action) } := by
  refine ⟨?_, ?_, ?_, rfl, rfl⟩
  · intro i hi hreset hpower hconnect hchange
    rw [PORTSC.getLsbD_write hmasks hseen hi hpower]
    exact PORTSC.bits.getLsbD_act_of_not hi (haction i hi hreset hconnect hchange)
  · intro i hlow hhigh hbit
    rw [PORTSC.getLsbD_write hmasks hseen (by omega) (by omega),
      ControlRegister.getLsbD_act _ _ _ (by omega)] at hbit
    have hrequest : ∀ i, 17 ≤ i → i ≤ 23 → PORTSC.bits.requests.getLsbD i = false := by
      intro i hlow hhigh
      have : ∀ i < 24, 17 ≤ i → (0x80000010#32).getLsbD i = false := by decide
      exact this i (by omega) hlow
    rw [hrequest i hlow hhigh, Bool.and_false, Bool.or_false, Bool.and_eq_true] at hbit
    exact hbit.1
  · intro hreset
    change (PORTSC.write r.portsc ((portsc &&& keep) ||| action)).getLsbD 4 = true
    change r.portsc.getLsbD 4 = true at hreset
    rw [PORTSC.getLsbD_write hmasks hseen (by omega) (by omega),
      ControlRegister.getLsbD_act _ _ _ (by omega), hreset,
      show PORTSC.bits.events.getLsbD 4 = false by decide]
    simp

end Guarantee

/-! ## The states of the port -/

/-- No reset goes on and none has ended, and no change is pending but that of the connection. -/
structure PortRegister.Fresh (r : PortRegister) : Prop where
  portReset : PORTSC.portReset r.portsc = false
  portResetChange : PORTSC.portResetChange r.portsc = false
  strobe : PORTSC.portLinkStateWriteStrobe r.portsc = false
  noFault : ∀ i, IsFault i → i ≠ 17 → r.portsc.getLsbD i = false

/-- Before the write of `Reset`, when `events` events had been posted at some time. -/
structure BeforeReset (r₀ : PortRegister) (events : ℕ) (r : PortRegister) : Prop where
  portReset : PORTSC.portReset r.portsc = false
  portResetChange : PORTSC.portResetChange r.portsc = false
  strobe : PORTSC.portLinkStateWriteStrobe r.portsc = false
  events : events ≤ r.events
  faults : r₀.faults ≤ r.faults
  noFault : r₀.faults < r.faults ∨ ∀ i, IsFault i → i ≠ 17 → r.portsc.getLsbD i = false
  connected : PORTSC.currentConnectStatus r₀.portsc = true →
    PORTSC.currentConnectStatus r.portsc = true ∨ r₀.faults < r.faults

/-- After it: the reset goes on and no change is pending, or it has ended and the event is there. -/
structure AfterReset (r₀ : PortRegister) (events : ℕ) (r : PortRegister) : Prop where
  strobe : PORTSC.portLinkStateWriteStrobe r.portsc = false
  faults : r₀.faults ≤ r.faults
  outcome : r₀.faults < r.faults ∨
    (PORTSC.portReset r.portsc = true ∧ NoChange r.portsc ∧ events ≤ r.events) ∨
    (PORTSC.portResetChange r.portsc = true ∧ PORTSC.portEnabledDisabled r.portsc = true ∧
      events < r.events)

/-- When the slot has been asked for. -/
structure SlotAsked (r₀ r : PortRegister) : Prop where
  portReset : PORTSC.portReset r.portsc = false
  portResetChange : PORTSC.portResetChange r.portsc = false
  faults : r₀.faults ≤ r.faults
  enabled : PORTSC.portEnabledDisabled r.portsc = true ∨ r₀.faults < r.faults

/-- When the reset has ended. -/
structure ResetEnded (r₀ : PortRegister) (events : ℕ) (r : PortRegister) : Prop where
  portReset : PORTSC.portReset r.portsc = false
  strobe : PORTSC.portLinkStateWriteStrobe r.portsc = false
  faults : r₀.faults ≤ r.faults
  outcome : r₀.faults < r.faults ∨
    (PORTSC.portResetChange r.portsc = true ∧ PORTSC.portEnabledDisabled r.portsc = true ∧
      events < r.events)

section States

variable {r₀ : PortRegister} {events : ℕ}

/-- The controller does not reset a port on its own. -/
theorem noReset_of_step {r t : PortRegister} (h : PORTSC.portReset r.portsc = false)
    (ht : r.Step t) : PORTSC.portReset t.portsc = false := by
  apply Bool.eq_false_of_not_eq_true
  intro h'
  rw [ht.resetRequest h'] at h
  cases h

/-- Without a reset no reset ends. -/
theorem noResetChange_of_step {r t : PortRegister} (h : PORTSC.portReset r.portsc = false)
    (h' : PORTSC.portResetChange r.portsc = false) (ht : r.Step t) :
    PORTSC.portResetChange t.portsc = false := by
  apply Bool.eq_false_of_not_eq_true
  intro hchange
  rcases ht.resetChange hchange with hold | ⟨-, hold⟩
  · rw [h'] at hold
    cases hold
  · rw [h] at hold
    cases hold

theorem BeforeReset.stable : Stable PortRegister.Step (BeforeReset r₀ events) := by
  intro r t hr ht
  refine ⟨noReset_of_step hr.portReset ht, ?_, ht.strobe.trans hr.strobe,
    hr.events.trans ht.events, hr.faults.trans ht.faults, ?_, ?_⟩
  · -- without a reset none ends
    exact noResetChange_of_step hr.portReset hr.portResetChange ht
  · rcases hr.noFault with h | h
    · exact .inl (Nat.lt_of_lt_of_le h ht.faults)
    · by_cases hfault : r.faults < t.faults
      · exact .inl (Nat.lt_of_le_of_lt hr.faults hfault)
      · right
        intro i hi hne
        apply Bool.eq_false_of_not_eq_true
        intro hbit
        have hold := (ht.fault i hi hbit).resolve_right hfault
        rw [h i hi hne] at hold
        cases hold
  · intro h
    rcases hr.connected h with h | h
    · exact (ht.connected h).imp_right (Nat.lt_of_le_of_lt hr.faults)
    · exact .inr (Nat.lt_of_lt_of_le h ht.faults)

/-- A port is disabled only with another change. -/
theorem stillEnabled_of_step {r t : PortRegister} (hfaults : r₀.faults ≤ r.faults)
    (h : PORTSC.portEnabledDisabled r.portsc = true ∨ r₀.faults < r.faults) (ht : r.Step t) :
    PORTSC.portEnabledDisabled t.portsc = true ∨ r₀.faults < t.faults := by
  rcases h with h | h
  · exact (ht.enabled h).imp_right (Nat.lt_of_le_of_lt hfaults)
  · exact .inr (Nat.lt_of_lt_of_le h ht.faults)

theorem SlotAsked.stable : Stable PortRegister.Step (SlotAsked r₀) := by
  intro r t hr ht
  exact ⟨noReset_of_step hr.portReset ht,
    noResetChange_of_step hr.portReset hr.portResetChange ht, hr.faults.trans ht.faults,
    stillEnabled_of_step hr.faults hr.enabled ht⟩

/-- What the end of a reset has left stays, unless there is another change. -/
theorem enabled_of_step {r t : PortRegister} (hfaults : r₀.faults ≤ r.faults)
    (h : PORTSC.portResetChange r.portsc = true ∧ PORTSC.portEnabledDisabled r.portsc = true ∧
      events < r.events) (ht : r.Step t) :
    r₀.faults < t.faults ∨ (PORTSC.portResetChange t.portsc = true ∧
      PORTSC.portEnabledDisabled t.portsc = true ∧ events < t.events) := by
  obtain ⟨hchange, henabled, hevents⟩ := h
  rcases ht.enabled henabled with henabled | hfault
  · exact .inr ⟨ht.changes 21 (by omega) (by omega) hchange, henabled,
      Nat.lt_of_lt_of_le hevents ht.events⟩
  · exact .inl (Nat.lt_of_le_of_lt hfaults hfault)

theorem ResetEnded.stable : Stable PortRegister.Step (ResetEnded r₀ events) := by
  intro r t hr ht
  refine ⟨noReset_of_step hr.portReset ht, ht.strobe.trans hr.strobe, hr.faults.trans ht.faults, ?_⟩
  rcases hr.outcome with h | h
  · exact .inl (Nat.lt_of_lt_of_le h ht.faults)
  · exact enabled_of_step hr.faults h ht

/-- The changes are those of faults and of the end of a reset. -/
theorem isFault_or (i : ℕ) (hlow : 17 ≤ i) (hhigh : i ≤ 23) : IsFault i ∨ i = 21 := by
  unfold IsFault
  omega

theorem AfterReset.stable : Stable PortRegister.Step (AfterReset r₀ events) := by
  intro r t hr ht
  refine ⟨ht.strobe.trans hr.strobe, hr.faults.trans ht.faults, ?_⟩
  rcases hr.outcome with h | ⟨hreset, hnone, hevents⟩ | h
  · exact .inl (Nat.lt_of_lt_of_le h ht.faults)
  · by_cases hfault : r.faults < t.faults
    · exact .inl (Nat.lt_of_le_of_lt hr.faults hfault)
    right
    cases hreset' : PORTSC.portReset t.portsc with
    | true =>
      left
      refine ⟨rfl, ?_, hevents.trans ht.events⟩
      -- a new change would be a fault, or the end of the reset
      intro i hlow hhigh
      apply Bool.eq_false_of_not_eq_true
      intro hbit
      have hold := hnone i hlow hhigh
      rcases isFault_or i hlow hhigh with hi | rfl
      · rw [(ht.fault i hi hbit).resolve_right hfault] at hold
        cases hold
      · rcases ht.resetChange hbit with h | ⟨h, -⟩
        · unfold PORTSC.portResetChange at h
          rw [h] at hold
          cases hold
        · rw [hreset'] at h
          cases h
    | false =>
      right
      obtain ⟨hchange, henabled⟩ := (ht.completed hreset hreset').resolve_right hfault
      refine ⟨hchange, henabled, Nat.lt_of_le_of_lt hevents (ht.event hnone fun h => ?_)⟩
      have hbit := h 21 (by omega) (by omega)
      unfold PORTSC.portResetChange at hchange
      rw [hchange] at hbit
      cases hbit
  · exact (enabled_of_step hr.faults h ht).imp_right .inr

/-! ## The functions -/

theorem PORTSC.SeenAs.stable {portsc : BitVec 32} :
    Stable PortRegister.Step fun r => PORTSC.SeenAs r.portsc portsc := by
  intro r t hr ht
  exact ⟨fun i hi hcontrol => (hr.controls i hi hcontrol).trans (ht.controls i hi hcontrol).symm,
    hr.strobe⟩

/-- The write of `Reset` takes the port from the one state to the other. -/
theorem afterReset_write {r : PortRegister} {portsc : BitVec 32} (hr : BeforeReset r₀ events r)
    (hseen : PORTSC.SeenAs r.portsc portsc) :
    AfterReset r₀ events { r with
      portsc := PORTSC.write r.portsc ((portsc &&& 0x0e00c3e0#32) ||| 0x00020010#32) } := by
  have hbits := fun i (hi : i < 32) (hpower : i ≠ 9) =>
    PORTSC.getLsbD_write PORTSC.masks_reset hseen hi hpower
  refine ⟨?_, hr.faults, ?_⟩
  · change (PORTSC.write r.portsc _).getLsbD 16 = false
    rw [hbits 16 (by omega) (by omega),
      PORTSC.bits.getLsbD_act_of_not (by omega) (by decide)]
    exact hr.strobe
  rcases hr.noFault with h | h
  · exact .inl h
  right
  left
  refine ⟨?_, ?_, hr.events⟩
  · change (PORTSC.write r.portsc _).getLsbD 4 = true
    rw [hbits 4 (by omega) (by omega)]
    exact PORTSC.bits.getLsbD_act_request (by omega) (by decide) (by decide)
  · intro i hlow hhigh
    change (PORTSC.write r.portsc _).getLsbD i = false
    rw [hbits i (by omega) (by omega)]
    by_cases hi : i = 17
    · rw [hi]
      exact PORTSC.bits.getLsbD_act_event (by omega) (by decide) (by decide) (by decide)
    · have hnot : (0x00020010#32).getLsbD i = false := Bool.eq_false_of_not_eq_true fun hbit => by
        have := (PORTSC.getLsbD_resetAction i (by omega)).mp hbit
        omega
      rw [PORTSC.bits.getLsbD_act_of_not (by omega) hnot]
      rcases isFault_or i hlow hhigh with hfault | rfl
      · exact h i hfault hi
      · exact hr.portResetChange

/-- `Reset` returns when the reset has ended. -/
theorem reset_meets {r : PortRegister} (hr : BeforeReset r₀ events r) :
    Meets (portContract r₀.faults) (fun _ => ResetEnded r₀ events) Port.reset r := by
  unfold Port.reset
  refine meets_read (C := portContract r₀.faults) BeforeReset.stable hr fun t ht => ?_
  have hseen : PORTSC.SeenAs t.portsc t.portsc := ⟨fun _ _ _ => rfl, ht.strobe⟩
  refine meets_write (C := portContract r₀.faults)
    (Stable.and BeforeReset.stable PORTSC.SeenAs.stable) ⟨ht, hseen⟩ ?_ ?_
  · rintro u ⟨-, hseen⟩
    apply guarantee_write PORTSC.masks_reset hseen
    intro i hi hreset hconnect _
    apply Bool.eq_false_of_not_eq_true
    intro hbit
    have := (PORTSC.getLsbD_resetAction i hi).mp hbit
    omega
  · rintro u ⟨hu, hseen⟩
    refine meets_wait_last (C := portContract r₀.faults) (J := fun _ => True) AfterReset.stable
      (afterReset_write hu hseen) (.inl rfl) (fun _ _ => trivial) fun v hv hready => ?_
    have hended : PORTSC.portReset v.portsc = false := by
      unfold Port.resetDone at hready
      exact Bool.not_eq_eq_eq_not.mp hready
    refine meets_pure (C := portContract r₀.faults) ResetEnded.stable
      ⟨hended, hv.strobe, hv.faults, ?_⟩ fun _ h => h
    refine hv.outcome.imp_right fun h => h.resolve_left fun hreset => ?_
    rw [hended] at hreset
    cases hreset.1

theorem clearPortResetChange_meets {r : PortRegister} (hr : ResetEnded r₀ events r)
    (henabled : PORTSC.portEnabledDisabled r.portsc = true ∨ r₀.faults < r.faults) :
    Meets (portContract r₀.faults) (fun _ => SlotAsked r₀) Port.clearPortResetChange r := by
  have hstable : Stable PortRegister.Step fun r => ResetEnded r₀ events r ∧
      (PORTSC.portEnabledDisabled r.portsc = true ∨ r₀.faults < r.faults) :=
    fun r t hr ht => ⟨ResetEnded.stable _ _ hr.1 ht, stillEnabled_of_step hr.1.faults hr.2 ht⟩
  unfold Port.clearPortResetChange Port.clearStatusBit
  refine meets_read (C := portContract r₀.faults) hstable ⟨hr, henabled⟩ fun t ht => ?_
  have hseen : PORTSC.SeenAs t.portsc t.portsc := ⟨fun _ _ _ => rfl, ht.1.strobe⟩
  have hmasks := PORTSC.masks_clear 21 (.inr rfl)
  have htwo : ∀ i < 32, i ≠ 21 → (BitVec.twoPow 32 21).getLsbD i = false := by decide
  rw [PORTSC.set_bit]
  refine meets_write_last (C := portContract r₀.faults)
    (Stable.and hstable PORTSC.SeenAs.stable) ⟨ht, hseen⟩ ?_ ?_
  · rintro u ⟨-, hseen⟩
    exact guarantee_write hmasks hseen fun i hi _ _ hchange => htwo i hi hchange
  · rintro u ⟨⟨hu, henabled⟩, hseen⟩
    have hbits := fun i (hi : i < 32) (hpower : i ≠ 9) =>
      PORTSC.getLsbD_write hmasks hseen hi hpower
    refine meets_pure (C := portContract r₀.faults) SlotAsked.stable
      ⟨?_, ?_, hu.faults, ?_⟩ fun _ h => h
    · change (PORTSC.write u.portsc _).getLsbD 4 = false
      rw [hbits 4 (by omega) (by omega),
        PORTSC.bits.getLsbD_act_of_not (by omega) (htwo 4 (by omega) (by omega))]
      exact hu.portReset
    · change (PORTSC.write u.portsc _).getLsbD 21 = false
      rw [hbits 21 (by omega) (by omega)]
      exact PORTSC.bits.getLsbD_act_event (by omega) (by decide) (by decide) (by decide)
    · change (PORTSC.write u.portsc _).getLsbD 1 = true ∨ _
      rw [hbits 1 (by omega) (by omega),
        PORTSC.bits.getLsbD_act_of_not (by omega) (htwo 1 (by omega) (by omega))]
      exact henabled

/-- How bringing up a port ends: with a request for a slot and no change of its own left, unless the
port was not connected or something else has happened. -/
structure BroughtUp (r₀ : PortRegister) (result : Bool × Bool) (r : PortRegister) : Prop where
  isReset : PORTSC.currentConnectStatus r₀.portsc = true →
    result.1 = true ∨ r₀.faults < r.faults
  isEnabling : result.1 = true → result.2 = true ∨ r₀.faults < r.faults
  asked : result.2 = true → SlotAsked r₀ r

theorem BroughtUp.stable {result : Bool × Bool} :
    Stable PortRegister.Step (BroughtUp r₀ result) := by
  intro r t hr ht
  have hlater : ∀ {p : Prop}, p ∨ r₀.faults < r.faults → p ∨ r₀.faults < t.faults :=
    fun h => h.imp_right fun h => Nat.lt_of_lt_of_le h ht.faults
  exact ⟨fun h => hlater (hr.isReset h), fun h => hlater (hr.isEnabling h),
    fun h => SlotAsked.stable _ _ (hr.asked h) ht⟩

/-- The slot is asked for when the port is enabled. -/
theorem enableSlot_meets {r : PortRegister} (hr : ResetEnded r₀ events r) :
    Meets (portContract r₀.faults) (fun asked t => BroughtUp r₀ (true, asked) t) enableSlot r := by
  unfold enableSlot Port.isEnabled Port.isPortResetChanged
  refine meets_read (C := portContract r₀.faults) ResetEnded.stable hr fun t ht => ?_
  cases henabled : PORTSC.portEnabledDisabled t.portsc with
  | true =>
    have hstable : Stable PortRegister.Step fun r => ResetEnded r₀ events r ∧
        (PORTSC.portEnabledDisabled r.portsc = true ∨ r₀.faults < r.faults) :=
      fun r t hr ht => ⟨ResetEnded.stable _ _ hr.1 ht, stillEnabled_of_step hr.1.faults hr.2 ht⟩
    refine meets_read (C := portContract r₀.faults) hstable ⟨ht, .inl henabled⟩ fun u hu => ?_
    cases hchange : PORTSC.portResetChange u.portsc with
    | true =>
      rw [if_pos (by decide)]
      apply (clearPortResetChange_meets hu.1 hu.2).bind
      intro _ v hv
      exact meets_pure (C := portContract r₀.faults) BroughtUp.stable
        ⟨fun _ => .inl rfl, fun _ => .inl rfl, fun _ => hv⟩ fun _ h => h
    | false =>
      rw [if_neg (by decide)]
      have hfault : r₀.faults < u.faults := hu.1.outcome.resolve_right fun h => by
        rw [hchange] at h
        cases h.1
      exact meets_pure (C := portContract r₀.faults) BroughtUp.stable
        ⟨fun _ => .inl rfl, fun _ => .inr hfault, fun h => by cases h⟩ fun _ h => h
  | false =>
    have hfault : r₀.faults < t.faults := ht.outcome.resolve_right fun h => by
      rw [henabled] at h
      cases h.2.1
    have hstable : Stable PortRegister.Step fun r => r₀.faults < r.faults :=
      fun r t hr ht => Nat.lt_of_lt_of_le hr ht.faults
    refine meets_read (C := portContract r₀.faults) hstable hfault fun u hu => ?_
    rw [Bool.false_and, if_neg (by decide)]
    exact meets_pure (C := portContract r₀.faults) BroughtUp.stable
      ⟨fun _ => .inl rfl, fun _ => .inr hu, fun h => by cases h⟩ fun _ h => h

/-- The port was reset, or it was not connected when it was looked at. -/
def ResetAnswer (r₀ : PortRegister) (events : ℕ) (isReset : Bool) (r : PortRegister) : Prop :=
  (isReset = true ∧ ResetEnded r₀ events r) ∨
    (isReset = false ∧
      (PORTSC.currentConnectStatus r₀.portsc = true → r₀.faults < r.faults))

theorem ResetAnswer.stable {isReset : Bool} :
    Stable PortRegister.Step (ResetAnswer r₀ events isReset) := by
  rintro r t (⟨heq, hr⟩ | ⟨heq, hr⟩) ht
  · exact .inl ⟨heq, ResetEnded.stable _ _ hr ht⟩
  · exact .inr ⟨heq, fun h => Nat.lt_of_lt_of_le (hr h) ht.faults⟩

/-- A connected port is reset, another one left alone. -/
theorem resetPort_meets {r : PortRegister} (hr : BeforeReset r₀ events r) :
    Meets (portContract r₀.faults) (ResetAnswer r₀ events) resetPort r := by
  unfold resetPort Port.isConnected
  refine meets_read (C := portContract r₀.faults) BeforeReset.stable hr fun t ht => ?_
  cases hconnected : PORTSC.currentConnectStatus t.portsc with
  | false =>
    refine meets_pure (C := portContract r₀.faults) ResetAnswer.stable
      (.inr ⟨rfl, fun h => ?_⟩) fun _ h => h
    refine (ht.connected h).resolve_left fun h => ?_
    rw [hconnected] at h
    cases h
  | true =>
    exact (reset_meets ht).bind fun _ u hu =>
      meets_pure (C := portContract r₀.faults) ResetAnswer.stable (.inl ⟨rfl, hu⟩) fun _ h => h

/-- The functions one after the other. -/
theorem bringUpPort_meets (hfresh : r₀.Fresh) :
    Meets (portContract r₀.faults) (BroughtUp r₀) bringUpPort r₀ := by
  have hstart : BeforeReset r₀ r₀.events r₀ :=
    ⟨hfresh.portReset, hfresh.portResetChange, hfresh.strobe, Nat.le_refl _, Nat.le_refl _,
      .inr hfresh.noFault, .inl⟩
  unfold bringUpPort
  refine meets_read (C := portContract r₀.faults) BeforeReset.stable hstart fun t ht => ?_
  have ht : BeforeReset r₀ t.events t := { ht with events := Nat.le_refl _ }
  generalize t.events = events at ht
  apply (resetPort_meets ht).bind
  rintro _ u (⟨rfl, hu⟩ | ⟨rfl, hu⟩)
  · refine meets_wait (C := portContract r₀.faults)
      (J := fun r => events < r.events ∨ r₀.faults < r.faults) ResetEnded.stable hu
      (.inr ⟨events, rfl, fun _ h => h⟩) ?_ fun v hv _ => ?_
    · intro v hv
      exact hv.outcome.symm.imp_left fun h => h.2.2
    · exact (enableSlot_meets hv).bind fun asked w hw =>
        meets_pure (C := portContract r₀.faults) BroughtUp.stable hw fun _ h => h
  · exact meets_pure (C := portContract r₀.faults) BroughtUp.stable
      ⟨fun h => .inr (hu h), fun h => absurd h (by decide), fun h => absurd h (by decide)⟩
      fun _ h => h

end States

/-! ## Runs -/

/-- **Bringing up a port.** In every interleaving with the controller: no access of the driver
disables the port, acknowledges a change that it does not handle or touches the other bits; and at
the end a connected port has its slot asked for and its change acknowledged, unless the controller
has found another change. -/
theorem bringUpPort_safe {r₀ : PortRegister} (hfresh : r₀.Fresh)
    {c : DeviceProgram PortRegister (Bool × Bool) × PortRegister}
    (hc : (system PortRegister.Step bringUpPort fun r => r = r₀).Reachable c) :
    (∀ d, ProgramStep c d → c.2.Guarantee d.2) ∧
      ∀ result, c.1 = done result → BroughtUp r₀ result c.2 := by
  have hmeets : Meets (portContract r₀.faults) (BroughtUp r₀) c.1 c.2 :=
    Meets.reachable (C := portContract r₀.faults) (fun r hr => by
      rw [hr]
      exact bringUpPort_meets hfresh) hc
  constructor
  · intro d hstep
    exact hmeets.guarantee hstep
  · intro result hdone
    rw [hdone] at hmeets
    exact hmeets.at_end

/-! A controller that ends a reset at once, and a port with a device that has just been
connected. -/

namespace PortRegister

/-- A controller that ends each reset at once. -/
def answer (r : PortRegister) : PortRegister :=
  if PORTSC.portReset r.portsc then
    { r with
      portsc := BitField.set (BitField.set (BitField.set r.portsc 4 0#1) 1 1#1) 21 1#1
      events := r.events + 1 }
  else r

/-- A port with power and a device, and only the connect change. -/
def justConnected : PortRegister := ⟨0x00020201#32, 0, 0⟩

theorem getLsbD_answer {r : PortRegister} (hreset : PORTSC.portReset r.portsc = true) {i : ℕ}
    (hi : i < 32) : r.answer.portsc.getLsbD i =
      if i = 21 ∨ i = 1 then true else if i = 4 then false else r.portsc.getLsbD i := by
  unfold answer
  rw [if_pos hreset, BitField.getLsbD_set_bit _ _ _ hi, BitField.getLsbD_set_bit _ _ _ hi,
    BitField.getLsbD_set_bit _ _ _ hi]
  by_cases h21 : i = 21
  · rw [if_pos h21, if_pos (.inl h21)]
    rfl
  · by_cases h1 : i = 1
    · rw [if_neg h21, if_pos h1, if_pos (.inr h1)]
      rfl
    · rw [if_neg h21, if_neg h1, if_neg (not_or.mpr ⟨h21, h1⟩)]
      rfl

theorem answer_step (r : PortRegister) : r.Step r.answer := by
  by_cases hreset : PORTSC.portReset r.portsc = true
  · have hbits := fun i (hi : i < 32) => getLsbD_answer hreset hi
    have hother : ∀ i < 32, i ≠ 21 → i ≠ 1 → i ≠ 4 →
        r.answer.portsc.getLsbD i = r.portsc.getLsbD i := fun i hi h21 h1 h4 => by
      rw [hbits i hi, if_neg (not_or.mpr ⟨h21, h1⟩), if_neg h4]
    have hfaults : r.answer.faults = r.faults := by rw [answer, if_pos hreset]
    have hevents : r.answer.events = r.events + 1 := by rw [answer, if_pos hreset]
    have hdone : PORTSC.portReset r.answer.portsc = false := by
      unfold PORTSC.portReset
      rw [hbits 4 (by omega), if_neg (by omega), if_pos rfl]
    have hchange : PORTSC.portResetChange r.answer.portsc = true := by
      unfold PORTSC.portResetChange
      rw [hbits 21 (by omega), if_pos (.inl rfl)]
    have henabled : PORTSC.portEnabledDisabled r.answer.portsc = true := by
      unfold PORTSC.portEnabledDisabled
      rw [hbits 1 (by omega), if_pos (.inr rfl)]
    refine ⟨?_, hother 16 (by omega) (by omega) (by omega) (by omega), ?_,
      Nat.le_of_eq hfaults.symm, ?_, ?_, fun _ => .inl henabled, ?_,
      fun _ => .inr ⟨hdone, hreset⟩, fun _ _ => .inl ⟨hchange, henabled⟩, by omega,
      fun _ _ => by omega⟩
    · intro i _ hcontrol
      have hnot : ∀ j < 32, PORTSC.bits.controls.getLsbD j = true → j ≠ 21 ∧ j ≠ 1 ∧ j ≠ 4 := by
        decide
      have hi : i < 32 := BitVec.lt_of_getLsbD hcontrol
      obtain ⟨h21, h1, h4⟩ := hnot i hi hcontrol
      exact hother i hi h21 h1 h4
    · intro i hlow hhigh hbit
      by_cases h21 : i = 21
      · rw [h21]
        exact hchange
      · rw [hother i (by omega) h21 (by omega) (by omega)]
        exact hbit
    · intro i hi hbit
      left
      unfold IsFault at hi
      rw [hother i (by omega) (by omega) (by omega) (by omega)] at hbit
      exact hbit
    · intro hconnected
      left
      unfold PORTSC.currentConnectStatus
      rw [hother 0 (by omega) (by omega) (by omega) (by omega)]
      exact hconnected
    · intro h
      rw [hdone] at h
      cases h
  · have hsame : r.answer = r := if_neg hreset
    rw [hsame]
    exact ⟨fun _ _ _ => rfl, rfl, fun _ _ _ h => h, Nat.le_refl _, fun _ _ h => .inl h, .inl, .inl,
      fun h => h, .inl, fun h _ => absurd h hreset, Nat.le_refl _, fun h h' => absurd h h'⟩

theorem resetDone_answer (r : PortRegister) : Port.resetDone r.answer = true := by
  unfold Port.resetDone
  by_cases hreset : PORTSC.portReset r.portsc = true
  · unfold PORTSC.portReset at hreset ⊢
    rw [getLsbD_answer hreset (by omega), if_neg (by omega), if_pos rfl]
    rfl
  · rw [answer, if_neg hreset, Bool.eq_false_of_not_eq_true hreset]
    rfl

theorem faults_answer (r : PortRegister) : r.answer.faults = r.faults := by
  unfold answer
  split
  · rfl
  · rfl

theorem fresh_justConnected : justConnected.Fresh where
  portReset := by decide
  portResetChange := by decide
  strobe := by decide
  noFault i hi hne := by
    have hbits : ∀ j < 32, 18 ≤ j → (0x00020201#32).getLsbD j = false := by decide
    unfold IsFault at hi
    exact hbits i (by omega) (by omega)

end PortRegister

/-- The driver at this port. -/
def connectedRun : ℕ → DeviceProgram PortRegister (Bool × Bool) × PortRegister :=
  eagerRun PortRegister.answer (bringUpPort, .justConnected)

theorem faults_connectedRun (n : ℕ) : (connectedRun n).2.faults = 0 := by
  have hrun : FairRun PortRegister.Step connectedRun := eagerRun_fair PortRegister.answer_step _
  have hanswers : FairRun (fun r r' => PortRegister.answer r = r') connectedRun :=
    eagerRun_fair (fun _ => rfl) _
  have hmeets : Meets (portContract 0) (BroughtUp .justConnected) (connectedRun 0).1
      (connectedRun 0).2 := bringUpPort_meets PortRegister.fresh_justConnected
  induction n with
  | zero => rfl
  | succ n ih =>
    have hn := FairRun.meets (C := portContract 0) hrun hmeets n
    have hstep := hanswers.step n
    generalize connectedRun n = c, connectedRun (n + 1) = d at hn hstep ih
    cases hstep with
    | program hprogram => exact (hn.guarantee hprogram).faults.trans ih
    | device hdevice =>
      rw [← hdevice]
      exact (PortRegister.faults_answer _).trans ih

theorem bringUpPort_safe_example :
    BroughtUp .justConnected (true, true) (connectedRun 11).2 := by
  have hreach := eagerRun_reachable PortRegister.answer_step (fun r => r = .justConnected) rfl
    bringUpPort 11
  obtain ⟨-, hend⟩ := bringUpPort_safe PortRegister.fresh_justConnected hreach
  have hdone : (connectedRun 11).1 = done (true, true) := rfl
  exact hend _ hdone

/-- No event is ever taken back. -/
theorem events_le {r₀ : PortRegister}
    {tr : ℕ → DeviceProgram PortRegister (Bool × Bool) × PortRegister}
    (hrun : FairRun PortRegister.Step tr)
    (hmeets : Meets (portContract r₀.faults) (BroughtUp r₀) (tr 0).1 (tr 0).2) {n m : ℕ}
    (hnm : n ≤ m) : (tr n).2.events ≤ (tr m).2.events := by
  induction m, hnm using Nat.le_induction with
  | base => exact Nat.le_refl _
  | succ m _ ih =>
    refine ih.trans ?_
    have hm := FairRun.meets (C := portContract r₀.faults) hrun hmeets m
    have hstep := hrun.step m
    generalize tr m = c, tr (m + 1) = d at hm hstep
    cases hstep with
    | program hprogram => exact Nat.le_of_eq (hm.guarantee hprogram).events.symm
    | device hdevice => exact hdevice.events

/-- **A connected port comes up.** When the controller ends its resets and finds no other change,
the event that the driver waits for is there, and a slot is asked for. -/
theorem bringUpPort_ends {r₀ : PortRegister} (hfresh : r₀.Fresh)
    (hconnected : PORTSC.currentConnectStatus r₀.portsc = true)
    {tr : ℕ → DeviceProgram PortRegister (Bool × Bool) × PortRegister}
    (hstart : tr 0 = (bringUpPort, r₀)) (hrun : FairRun PortRegister.Step tr)
    (hresets : ∀ I, AnswersIn tr I Port.resetDone) (hfaults : ∀ n, (tr n).2.faults = r₀.faults) :
    ∃ n, (tr n).1 = done (true, true) ∧ SlotAsked r₀ (tr n).2 := by
  have hmeets : Meets (portContract r₀.faults) (BroughtUp r₀) (tr 0).1 (tr 0).2 := by
    rw [hstart]
    exact bringUpPort_meets hfresh
  have hanswers : ∀ I ready, (portContract r₀.faults).answers I ready → AnswersIn tr I ready := by
    rintro I ready (rfl | ⟨events, rfl, hI⟩)
    · exact hresets I
    · -- without another change the event is there, and stays
      intro n hwaits
      refine ⟨n, Nat.le_refl _, fun k hk => ?_⟩
      have hnow := hI _ (hwaits n (Nat.le_refl _)).2
      rw [hfaults n] at hnow
      have hevent := hnow.resolve_right (Nat.lt_irrefl _)
      exact decide_eq_true (Nat.lt_of_lt_of_le hevent (events_le hrun hmeets hk))
  obtain ⟨n, result, hdone⟩ := FairRun.finishes (C := portContract r₀.faults) hrun hanswers hmeets
  have hend : BroughtUp r₀ result (tr n).2 := by
    have hn := FairRun.meets (C := portContract r₀.faults) hrun hmeets n
    rw [hdone] at hn
    exact hn.at_end
  have hnone : ¬ r₀.faults < (tr n).2.faults := by
    rw [hfaults n]
    exact Nat.lt_irrefl _
  have hreset := (hend.isReset hconnected).resolve_right hnone
  have hasked := (hend.isEnabling hreset).resolve_right hnone
  refine ⟨n, ?_, hend.asked hasked⟩
  rw [hdone]
  exact congrArg done (Prod.ext hreset hasked)

theorem bringUpPort_ends_example :
    ∃ n, (connectedRun n).1 = done (true, true) ∧
      SlotAsked .justConnected (connectedRun n).2 := by
  have hrun : FairRun PortRegister.Step connectedRun := eagerRun_fair PortRegister.answer_step _
  apply bringUpPort_ends PortRegister.fresh_justConnected (by decide) rfl hrun
  · intro I
    exact answersIn_eagerRun (fun r _ => r.resetDone_answer) _
  · exact faults_connectedRun

end TommyOS.Usb
