import TommyOS.Usb.ParserBounds

/-!
# The endpoints that a configuration leads to

`InitializePhase2` enters in `ep_configs_` the endpoints behind the first interface with a driver,
up to the number that the interface names, in the order of their descriptors.
-/

namespace TommyOS.Usb

/-- An index of an endpoint other than the default pipe. -/
def EndpointID.InRange (epId : EndpointID) : Prop := 2 ≤ epId.address ∧ epId.address ≤ 31

namespace ConfigurationParser

open ConfigurationDescriptorReader

variable {buf : ℕ → BitVec 8} {len : ℤ} {p q k e n : ℕ} {m : Machine} {d d' : Device}

/-! ## Descriptors -/

/-- The descriptor behind `e` others is an endpoint, and the interface at `p` wants one more. -/
structure Configured (buf : ℕ → BitVec 8) (p e : ℕ) : Prop where
  wanted : endpointCount buf p e < numEndpoints buf p
  type : buf (place buf p (e + 1) + 1) = descriptor.kEndpoint

/-- `endpoint_address.bits.number` of the endpoint at a place. -/
def endpointNumber (buf : ℕ → BitVec 8) (q : ℕ) : ℕ := ((buf (q + 2)).extractLsb' 0 4).toNat

/-- An interrupt endpoint that sends to the host. -/
def IsInterruptIn (buf : ℕ → BitVec 8) (q : ℕ) : Prop :=
  (buf (q + 3)).extractLsb' 0 2 = 3#2 ∧ (buf (q + 2)).getLsbD 7 = true

instance (buf : ℕ → BitVec 8) (q : ℕ) : Decidable (IsInterruptIn buf q) :=
  inferInstanceAs (Decidable (_ ∧ _))

/-- No endpoint that the first driver gets has the number 0, and when it gets some, one of them is
an interrupt endpoint that sends to the host. -/
structure UsableEndpoints (buf : ℕ → BitVec 8) (len : ℕ) : Prop where
  number : ∀ k p, FirstDriver buf len k p → ∀ e, Configured buf p e →
    endpointNumber buf (place buf p (e + 1)) ≠ 0
  interruptIn : ∀ k p, FirstDriver buf len k p → numEndpoints buf p ≠ 0 →
    ∃ e, Configured buf p e ∧ IsInterruptIn buf (place buf p (e + 1))

theorem FirstDriver.unique {k' p' len : ℕ} (h : FirstDriver buf len k p)
    (h' : FirstDriver buf len k' p') : k = k' ∧ p = p' := by
  have hle : ∀ {k₁ p₁ k₂ p₂ : ℕ}, FirstDriver buf len k₁ p₁ → FirstDriver buf len k₂ p₂ →
      k₂ ≤ k₁ := by
    intro k₁ p₁ k₂ p₂ h₁ h₂
    by_contra hlt
    refine (h₂.passed (k₁ + 1) (Nat.succ_pos k₁) (by omega)).2 ?_
    rw [h₁.place]
    exact h₁.hasDriver
  obtain rfl := Nat.le_antisymm (hle h' h) (hle h h')
  exact ⟨rfl, h.place.symm.trans h'.place⟩

theorem address_makeEPConfig (buf : ℕ → BitVec 8) (q : ℕ) :
    (makeEPConfig buf q).epId.address =
      2 * endpointNumber buf q + ((buf (q + 2)).getLsbD 7).toNat := by
  show endpointNumber buf q <<< 1 ||| ((buf (q + 2)).getLsbD 7).toNat = _
  have hbit : ((buf (q + 2)).getLsbD 7).toNat < 2 ^ 1 := Bool.toNat_lt _
  rw [← Nat.shiftLeft_add_eq_or_of_lt hbit, Nat.shiftLeft_eq]
  omega

/-- A number of four bits that is not 0 has an index in the range. -/
theorem inRange_makeEPConfig (h : endpointNumber buf q ≠ 0) :
    (makeEPConfig buf q).epId.InRange := by
  have hbit := Bool.toNat_le ((buf (q + 2)).getLsbD 7)
  have hnumber : endpointNumber buf q < 16 := BitVec.isLt _
  unfold EndpointID.InRange
  rw [address_makeEPConfig]
  omega

theorem epType_of_isInterruptIn (h : IsInterruptIn buf q) :
    (makeEPConfig buf q).epType = .kInterrupt := by
  show EndpointType.ofBits ((buf (q + 3)).extractLsb' 0 2) = _
  rw [h.1]
  rfl

/-! ## The loop over the endpoints -/

/-- What the loop has entered when it is `e` descriptors behind the interface. -/
structure EndpointsRead (buf : ℕ → BitVec 8) (p e : ℕ) (d : Device) : Prop where
  count : d.numEpConfigs = endpointCount buf p e
  bound : d.numEpConfigs ≤ numEndpoints buf p
  config : ∀ e' < e, buf (place buf p (e' + 1) + 1) = descriptor.kEndpoint →
    d.epConfigs (endpointCount buf p e') = makeEPConfig buf (place buf p (e' + 1))
  origin : ∀ n < d.numEpConfigs, ∃ e' < e,
    buf (place buf p (e' + 1) + 1) = descriptor.kEndpoint ∧ endpointCount buf p e' = n

theorem endpointsRead_zero (buf : ℕ → BitVec 8) (p : ℕ) (hnone : d.numEpConfigs = 0) :
    EndpointsRead buf p 0 d where
  count := hnone
  bound := by rw [hnone]; exact Nat.zero_le _
  config := fun e' he' => absurd he' (Nat.not_lt_zero e')
  origin := fun n hn => by
    rw [hnone] at hn
    exact absurd hn (Nat.not_lt_zero n)

/-- Another descriptor is passed over. -/
theorem EndpointsRead.skip (h : EndpointsRead buf p e d)
    (htype : buf (place buf p (e + 1) + 1) ≠ descriptor.kEndpoint) :
    EndpointsRead buf p (e + 1) d where
  count := by
    rw [endpointCount_succ, if_neg htype]
    exact h.count
  bound := h.bound
  config := by
    intro e' he' htype'
    have hne : e' ≠ e := by
      rintro rfl
      exact htype htype'
    exact h.config e' (by omega) htype'
  origin := by
    intro n hn
    obtain ⟨e', he', htype', hcount⟩ := h.origin n hn
    exact ⟨e', by omega, htype', hcount⟩

/-- An endpoint is entered behind the others. -/
theorem EndpointsRead.enter (h : EndpointsRead buf p e d)
    (hwanted : d.numEpConfigs < numEndpoints buf p)
    (htype : buf (place buf p (e + 1) + 1) = descriptor.kEndpoint)
    (classDrivers : ℕ → Option ℕ) :
    EndpointsRead buf p (e + 1) (d.withEndpoints
      (Function.update d.epConfigs d.numEpConfigs (makeEPConfig buf (place buf p (e + 1))))
      (d.numEpConfigs + 1) classDrivers) where
  count := by
    rw [endpointCount_succ, if_pos htype, ← h.count]
    rfl
  bound := hwanted
  config := by
    intro e' he' htype'
    show Function.update d.epConfigs d.numEpConfigs _ (endpointCount buf p e') = _
    -- the new endpoint takes the first free entry
    rcases Nat.lt_or_eq_of_le (Nat.le_of_lt_succ he') with hlt | heq
    · -- the endpoints before have other places
      have hbefore : endpointCount buf p e' + 1 ≤ endpointCount buf p e := by
        have hmono := endpointCount_mono buf p (show e' + 1 ≤ e from hlt)
        rw [endpointCount_succ, if_pos htype'] at hmono
        exact hmono
      rw [Function.update_of_ne (by rw [h.count]; omega)]
      exact h.config e' hlt htype'
    · rw [heq, ← h.count]
      exact Function.update_self _ _ _
  origin := by
    intro n hn
    rcases Nat.lt_or_eq_of_le (Nat.le_of_lt_succ hn) with hlt | heq
    · obtain ⟨e', he', htype', hcount⟩ := h.origin n hlt
      exact ⟨e', by omega, htype', hcount⟩
    · exact ⟨e, Nat.lt_succ_self e, htype, by rw [heq, h.count]⟩

theorem readEndpoints_reads {driver fuel : ℕ} (hread : EndpointsRead buf p e d)
    (h : Device.readEndpoints buf len driver (numEndpoints buf p) fuel (place buf p e) d =
      some d') :
    ∃ e' epConfigs numEpConfigs classDrivers, EndpointsRead buf p e' d' ∧
      numEndpoints buf p ≤ d'.numEpConfigs ∧
      d' = d.withEndpoints epConfigs numEpConfigs classDrivers ∧
      (numEndpoints buf p = 0 → classDrivers = d.classDrivers) := by
  -- with each descriptor the loop has read one more of the walk, an endpoint or none
  induction fuel generalizing e d with
  | zero => exact absurd h (by simp [Device.readEndpoints])
  | succ fuel ih =>
    unfold Device.readEndpoints at h
    simp only at h
    split at h
    · next hwanted =>
      have hsome : numEndpoints buf p ≠ 0 := by omega
      split at h
      · have hplace : (next buf len (place buf p e)).1 = place buf p (e + 1) := rfl
        rw [hplace] at h
        split at h
        · next htype =>
          split at h
          · obtain ⟨e', epConfigs, numEpConfigs, classDrivers, hread', hall, rfl, -⟩ :=
              ih (hread.enter hwanted htype _) h
            exact ⟨e', epConfigs, numEpConfigs, classDrivers, hread', hall, rfl,
              fun hnone => absurd hnone hsome⟩
          · exact absurd h (by simp)
        · next htype =>
          obtain ⟨e', epConfigs, numEpConfigs, classDrivers, hread', hall, rfl, -⟩ :=
            ih (hread.skip htype) h
          exact ⟨e', epConfigs, numEpConfigs, classDrivers, hread', hall, rfl,
            fun hnone => absurd hnone hsome⟩
      · exact absurd h (by simp)
    · next hdone =>
      obtain rfl := Option.some.inj h
      exact ⟨e, d.epConfigs, d.numEpConfigs, d.classDrivers, hread, Nat.le_of_not_lt hdone, rfl,
        fun _ => rfl⟩

/-! ## The search -/

/-- The search for an interface passes over descriptors without a driver. -/
theorem nextOfType_passed {fuel : ℕ} (hpassed : Passed buf len.toNat k)
    (h : nextOfType buf len descriptor.kInterface fuel (place buf 0 k) = some (some q)) :
    ∃ k', Passed buf len.toNat k' ∧ place buf 0 (k' + 1) = q ∧ q < len.toNat ∧
      buf (q + 1) = descriptor.kInterface := by
  induction fuel generalizing k with
  | zero => exact absurd h (by simp [nextOfType])
  | succ fuel ih =>
    unfold nextOfType at h
    simp only at h
    have hplace : (next buf len (place buf 0 k)).1 = place buf 0 (k + 1) := rfl
    rw [hplace] at h
    split at h
    · next hinside =>
      have hlt : place buf 0 (k + 1) < len.toNat := Int.lt_toNat.mpr (of_decide_eq_true hinside)
      split at h
      · next htype =>
        obtain rfl := Option.some.inj (Option.some.inj h)
        exact ⟨k, hpassed, rfl, hlt, htype⟩
      · next htype => exact ih (hpassed.succ hlt fun hdriver => htype hdriver.1) h
    · exact absurd (Option.some.inj h) (by simp)

/-- All that the loop over the interfaces does to a device. -/
theorem readInterfaces_reads {fuel : ℕ} {driver : Option ℕ} (hpassed : Passed buf len.toNat k)
    (h : Device.readInterfaces m buf len fuel (place buf 0 k) d = some (driver, d')) :
    (driver = none ∧ d' = d) ∨
    ∃ i k' q e address size epConfigs numEpConfigs classDrivers, driver = some i ∧
      FirstDriver buf len.toNat k' q ∧ EndpointsRead buf q e d' ∧
      numEndpoints buf q ≤ d'.numEpConfigs ∧
      d' = Device.withEndpoints
        { d with drivers := d.drivers ++ [HIDBaseDriver.new address (buf (q + 2)) size] }
        epConfigs numEpConfigs classDrivers ∧
      (numEndpoints buf q = 0 → classDrivers = d.classDrivers) := by
  induction fuel generalizing k with
  | zero => exact absurd h (by simp [Device.readInterfaces])
  | succ fuel ih =>
    unfold Device.readInterfaces at h
    simp only [Option.bind_eq_bind, Option.bind_eq_some_iff] at h
    obtain ⟨place?, hplace, h⟩ := h
    split at h
    · simp only [Option.some.injEq, Prod.mk.injEq] at h
      exact .inl ⟨h.1.symm, h.2.symm⟩
    · next q =>
      obtain ⟨k', hpassed', hq, hinside, htype⟩ := nextOfType_passed hpassed hplace
      simp only [Option.bind_eq_some_iff] at h
      obtain ⟨⟨found, d₁⟩, hnew, h⟩ := h
      unfold Device.newClassDriver at hnew
      split at hnew
      · next hnone =>
        -- not supported: on to the next interface
        simp only [Option.some.injEq, Prod.mk.injEq] at hnew
        obtain ⟨rfl, rfl⟩ := hnew
        subst hq
        refine ih (hpassed'.succ hinside fun hdriver => ?_) h
        have hsome := hdriver.2
        rw [hnone] at hsome
        exact absurd hsome (by simp)
      · next size hsize =>
        simp only [Option.bind_eq_bind, Option.bind_eq_some_iff, Option.some.injEq,
          Prod.mk.injEq] at hnew
        obtain ⟨address, -, rfl, rfl⟩ := hnew
        simp only [Option.bind_eq_some_iff, Option.some.injEq, Prod.mk.injEq] at h
        obtain ⟨d₂, hread, rfl, rfl⟩ := h
        have hfirst : FirstDriver buf len.toNat k' q :=
          ⟨hpassed', hq, hinside, htype, by rw [hsize]; rfl⟩
        obtain ⟨e, epConfigs, numEpConfigs, classDrivers, hread', hall, rfl, hnone⟩ :=
          readEndpoints_reads (endpointsRead_zero buf q rfl) hread
        exact .inr ⟨_, k', q, e, address, size, epConfigs, numEpConfigs, classDrivers, rfl, hfirst,
          hread', hall, rfl, hnone⟩

/-! ## Usable endpoints -/

section Usable

variable {len : ℕ} (husable : UsableEndpoints buf len) (hfirst : FirstDriver buf len k p)
  (hread : EndpointsRead buf p e d)

include husable hfirst hread

theorem EndpointsRead.inRange (hn : n < d.numEpConfigs) : (d.epConfigs n).epId.InRange := by
  obtain ⟨e', he', htype, hcount⟩ := hread.origin n hn
  have hwanted : endpointCount buf p e' < numEndpoints buf p := by
    rw [hcount]
    exact Nat.lt_of_lt_of_le hn hread.bound
  rw [← hcount, hread.config e' he' htype]
  exact inRange_makeEPConfig (husable.number k p hfirst e' ⟨hwanted, htype⟩)

/-- The endpoint that sends to the host is among those that were entered. -/
theorem EndpointsRead.interruptIn (hall : numEndpoints buf p ≤ d.numEpConfigs)
    (hsome : numEndpoints buf p ≠ 0) :
    ∃ n < d.numEpConfigs, (d.epConfigs n).epType = .kInterrupt ∧
      (d.epConfigs n).epId.isIn = true := by
  obtain ⟨e', hconfigured, hin⟩ := husable.interruptIn k p hfirst hsome
  have hcount := hread.count
  have hwanted := hconfigured.wanted
  have he' : e' < e := by
    by_contra hge
    have hmono := endpointCount_mono buf p (Nat.le_of_not_lt hge)
    omega
  refine ⟨endpointCount buf p e', by omega, ?_⟩
  rw [hread.config e' he' hconfigured.type]
  exact ⟨epType_of_isInterruptIn hin, (EndpointID.isIn_ofNumber _ _).trans hin.2⟩

end Usable

end ConfigurationParser
end TommyOS.Usb
