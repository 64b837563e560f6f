import TommyOS.Usb.TransferRings

/-!
# The initialization of a device

How the descriptors of a device become the configuration of its endpoints and the driver that
is called for them.
-/

namespace TommyOS.Usb

namespace EndpointID

@[simp] theorem number_ofNumber (epNum : ℕ) (dirIn : Bool) :
    (ofNumber epNum dirIn).number = epNum := by
  show (epNum <<< 1 ||| dirIn.toNat) >>> 1 = epNum
  rw [Nat.shiftRight_or_distrib, Nat.shiftLeft_shiftRight]
  cases dirIn with
  | false => exact Nat.or_zero epNum
  | true => exact Nat.or_zero epNum

theorem isIn_ofNumber (epNum : ℕ) (dirIn : Bool) : (ofNumber epNum dirIn).isIn = dirIn := by
  show (epNum <<< 1 ||| dirIn.toNat).testBit 0 = dirIn
  rw [Nat.testBit_or, Nat.testBit_shiftLeft]
  cases dirIn with
  | false => simp
  | true => simp

/-- Only the default pipe has the address 1. -/
theorem address_ne_one {epId : EndpointID} (h : epId.number ≠ 0) : epId.address ≠ 1 := by
  intro haddress
  unfold number at h
  rw [show epId.addr = 1 from haddress] at h
  exact h rfl

end EndpointID

/-! ## Descriptors -/

namespace ConfigurationDescriptorReader

/-- The places a reader comes to. -/
inductive Visits (buf : ℕ → BitVec 8) (len : ℤ) : ℕ → Prop where
  | start : Visits buf len 0
  | next {p : ℕ} : Visits buf len p → (next buf len p).2 = true →
      Visits buf len (next buf len p).1

/-- No endpoint descriptor of a configuration is for the default pipe. -/
def ValidEndpoints (buf : ℕ → BitVec 8) (len : ℤ) : Prop :=
  ∀ p, Visits buf len p → buf (p + 1) = descriptor.kEndpoint →
    ((buf (p + 2)).extractLsb' 0 4).toNat ≠ 0

theorem visits_nextOfType {buf : ℕ → BitVec 8} {len : ℤ} {type : BitVec 8} {fuel p q : ℕ}
    (hp : Visits buf len p) (h : nextOfType buf len type fuel p = some (some q)) :
    Visits buf len q := by
  induction fuel generalizing p with
  | zero => exact absurd h (by simp [nextOfType])
  | succ fuel ih =>
    unfold nextOfType at h
    simp only at h
    split at h
    · next hinside =>
      split at h
      · rw [← Option.some.inj (Option.some.inj h)]
        exact hp.next hinside
      · exact ih (hp.next hinside) h
    · exact absurd (Option.some.inj h) (by simp)

end ConfigurationDescriptorReader

namespace Device

open ConfigurationDescriptorReader

variable {m : Machine} {d d' : Device} {buf : ℕ → BitVec 8} {len : ℤ} {err : Error}

/-- The endpoints of a device are not the default one. -/
structure EndpointsSet (d : Device) : Prop where
  epConfigs : ∀ k, k < d.numEpConfigs → (d.epConfigs k).epId.number ≠ 0
  classDrivers : d.classDrivers 0 = none

/-- What reading the endpoints changes. -/
def withEndpoints (d : Device) (epConfigs : ℕ → EndpointConfig) (numEpConfigs : ℕ)
    (classDrivers : ℕ → Option ℕ) : Device :=
  { d with epConfigs := epConfigs, numEpConfigs := numEpConfigs, classDrivers := classDrivers }

/-- An endpoint is entered under its number, which is not 0. -/
theorem EndpointsSet.add (hset : EndpointsSet d) {conf : EndpointConfig}
    (hnumber : conf.epId.number ≠ 0) (driver : ℕ) :
    EndpointsSet (d.withEndpoints (Function.update d.epConfigs d.numEpConfigs conf)
      (d.numEpConfigs + 1) (Function.update d.classDrivers conf.epId.number (some driver))) where
  epConfigs := by
    intro k hk
    by_cases hlast : k = d.numEpConfigs
    · subst hlast
      show (Function.update d.epConfigs d.numEpConfigs conf d.numEpConfigs).epId.number ≠ 0
      rw [Function.update_self]
      exact hnumber
    · show (Function.update d.epConfigs d.numEpConfigs conf k).epId.number ≠ 0
      rw [Function.update_of_ne hlast]
      exact hset.epConfigs k (Nat.lt_of_le_of_ne (Nat.le_of_lt_succ hk) hlast)
  classDrivers := (Function.update_of_ne (Ne.symm hnumber) _ _).trans hset.classDrivers

theorem readEndpoints_cases {driver numEndpoints fuel p : ℕ} (hvalid : ValidEndpoints buf len)
    (hp : Visits buf len p) (hset : EndpointsSet d)
    (h : readEndpoints buf len driver numEndpoints fuel p d = some d') :
    EndpointsSet d' ∧ ∃ epConfigs numEpConfigs classDrivers,
      d' = d.withEndpoints epConfigs numEpConfigs classDrivers := by
  -- each round moves on by one descriptor, and an endpoint among them is entered
  induction fuel generalizing p d with
  | zero => exact absurd h (by simp [readEndpoints])
  | succ fuel ih =>
    unfold readEndpoints at h
    simp only at h
    split at h
    · split at h
      · next hinside =>
        have hnext := hp.next hinside
        split at h
        · next htype =>
          split at h
          · have hnumber : (makeEPConfig buf (next buf len p).1).epId.number ≠ 0 := by
              show (EndpointID.ofNumber _ _).number ≠ 0
              rw [EndpointID.number_ofNumber]
              exact hvalid _ hnext htype
            obtain ⟨hset', epConfigs, numEpConfigs, classDrivers, rfl⟩ :=
              ih hnext (hset.add hnumber driver) h
            exact ⟨hset', epConfigs, numEpConfigs, classDrivers, rfl⟩
          · exact absurd h (by simp)
        · exact ih hnext hset h
      · exact absurd h (by simp)
    · rw [← Option.some.inj h]
      exact ⟨hset, d.epConfigs, d.numEpConfigs, d.classDrivers, rfl⟩

/-- A device with no driver gets none, or one for the endpoints of its interface. -/
theorem readInterfaces_cases {fuel p : ℕ} {driver : Option ℕ} (hvalid : ValidEndpoints buf len)
    (hp : Visits buf len p) (hdrivers : d.drivers = []) (hclass : d.classDrivers 0 = none)
    (h : readInterfaces m buf len fuel p d = some (driver, d')) :
    (driver = none ∧ d' = d) ∨ driver = some 0 ∧ EndpointsSet d' ∧
      ∃ address interfaceIndex size epConfigs numEpConfigs classDrivers,
        d' = { d with drivers := [.new address interfaceIndex size] }.withEndpoints
          epConfigs numEpConfigs classDrivers := by
  -- the first interface that has a driver ends the loop
  induction fuel generalizing p with
  | zero => exact absurd h (by simp [readInterfaces])
  | succ fuel ih =>
    unfold readInterfaces at h
    simp only [Option.bind_eq_bind, Option.bind_eq_some_iff] at h
    obtain ⟨place, hplace, h⟩ := h
    split at h
    · simp only [Option.some.injEq, Prod.mk.injEq] at h
      exact .inl ⟨h.1.symm, h.2.symm⟩
    · next q =>
      have hq := visits_nextOfType hp hplace
      simp only [Option.bind_eq_some_iff] at h
      obtain ⟨⟨found, d₁⟩, hnew, h⟩ := h
      unfold newClassDriver at hnew
      split at hnew
      · -- not supported: on to the next interface
        simp only [Option.some.injEq, Prod.mk.injEq] at hnew
        obtain ⟨rfl, rfl⟩ := hnew
        exact ih hq h
      · next size _ =>
        simp only [Option.bind_eq_bind, Option.bind_eq_some_iff, Option.some.injEq,
          Prod.mk.injEq] at hnew
        obtain ⟨address, -, rfl, rfl⟩ := hnew
        simp only [Option.bind_eq_some_iff, Option.some.injEq, Prod.mk.injEq] at h
        obtain ⟨d₂, hread, rfl, rfl⟩ := h
        -- the driver has no endpoints when the inner loop starts
        have hset : EndpointsSet { d with
            drivers := d.drivers ++ [.new address (buf (q + 2)) size], numEpConfigs := 0 } :=
          ⟨fun k hk => absurd hk (Nat.not_lt_zero k), hclass⟩
        obtain ⟨hset', epConfigs, numEpConfigs, classDrivers, rfl⟩ :=
          readEndpoints_cases hvalid hq hset hread
        refine .inr ⟨by rw [hdrivers]; rfl, hset', address, buf (q + 2), size, epConfigs,
          numEpConfigs, classDrivers, ?_⟩
        rw [hdrivers]
        rfl

/-- There is no other driver than the one. -/
theorem getElem?_driver {w w' : HIDBaseDriver} {i : ℕ} (hdrivers : d.drivers = [w])
    (h : d.drivers[i]? = some w') : i = 0 ∧ w = w' := by
  rw [hdrivers, List.getElem?_singleton] at h
  split at h
  · next hi => exact ⟨hi, Option.some.inj h⟩
  · exact absurd h (by simp)

/-- The driver takes the last of the interrupt endpoints that send to the host. -/
theorem setEndpoints_driver {w : HIDBaseDriver} {n : ℕ} (hdrivers : d.drivers = [w])
    (h : d.setEndpoints n = some d') :
    ∃ w', d' = { d with drivers := [w'] } ∧ w'.initializePhase = w.initializePhase ∧
      ((w'.epInterruptIn = w.epInterruptIn ∧
          ∀ k < n, ¬ ((d.epConfigs k).epType = .kInterrupt ∧ (d.epConfigs k).epId.isIn = true)) ∨
        ∃ k < n, w'.epInterruptIn = (d.epConfigs k).epId) := by
  induction n generalizing d' with
  | zero =>
    obtain rfl := Option.some.inj h
    exact ⟨w, by rw [← hdrivers], rfl, .inl ⟨rfl, fun k hk => absurd hk (Nat.not_lt_zero k)⟩⟩
  | succ n ih =>
    unfold setEndpoints at h
    simp only [Option.bind_eq_bind, Option.bind_eq_some_iff] at h
    obtain ⟨d₁, hd₁, i, hclass, w₁, hw₁, h⟩ := h
    obtain ⟨w', rfl, hphase, hin⟩ := ih hd₁
    obtain rfl := Option.some.inj h
    obtain ⟨rfl, rfl⟩ := getElem?_driver rfl hw₁
    -- an endpoint of another kind leaves the driver as it is
    have hother : ¬ ((d.epConfigs n).epType = .kInterrupt ∧ (d.epConfigs n).epId.isIn = true) →
        (w'.epInterruptIn = w.epInterruptIn ∧ ∀ k < n + 1,
          ¬ ((d.epConfigs k).epType = .kInterrupt ∧ (d.epConfigs k).epId.isIn = true)) ∨
        ∃ k < n + 1, w'.epInterruptIn = (d.epConfigs k).epId := by
      intro hnot
      rcases hin with ⟨hsame, hnone⟩ | ⟨k, hk, hin⟩
      · refine .inl ⟨hsame, fun k hk => ?_⟩
        rcases Nat.lt_or_eq_of_le (Nat.le_of_lt_succ hk) with hlt | rfl
        · exact hnone k hlt
        · exact hnot
      · exact .inr ⟨k, Nat.lt_succ_of_lt hk, hin⟩
    refine ⟨w'.setEndpoint (d.epConfigs n), rfl, ?_⟩
    unfold HIDBaseDriver.setEndpoint
    split
    · split
      · exact ⟨hphase, .inr ⟨n, Nat.lt_succ_self n, rfl⟩⟩
      · next hout => exact ⟨hphase, hother fun h => hout h.2⟩
    · next htype => exact ⟨hphase, hother fun h => htype h.1⟩

/-- The endpoints that reach the driver are those of the device. -/
theorem setEndpoints_cases {w : HIDBaseDriver} {n : ℕ} (hdrivers : d.drivers = [w])
    (hends : ∀ k, k < n → (d.epConfigs k).epId.number ≠ 0) (haddress : w.epInterruptIn.address ≠ 1)
    (h : d.setEndpoints n = some d') :
    ∃ w', d' = { d with drivers := [w'] } ∧ w'.initializePhase = w.initializePhase ∧
      w'.epInterruptIn.address ≠ 1 := by
  obtain ⟨w', hd, hphase, hin⟩ := setEndpoints_driver hdrivers h
  refine ⟨w', hd, hphase, ?_⟩
  rcases hin with ⟨hsame, -⟩ | ⟨k, hk, hin⟩
  · rw [hsame]
    exact haddress
  · rw [hin]
    exact EndpointID.address_ne_one (hends k hk)

/-! ## What is on the rings -/

/-- What was pushed for the endpoint with an index. -/
def pushedTo (d : Device) (i : ℕ) : List TRB :=
  match d.transferRings i with
  | some r => r.pushed
  | none => []

theorem pushedTo_of_eq {i : ℕ} {r : LoggedRing} (h : d.transferRings i = some r) :
    d.pushedTo i = r.pushed := by
  unfold pushedTo
  rw [h]

theorem pushedTo_congr {i : ℕ} (h : d'.transferRings i = d.transferRings i) :
    d'.pushedTo i = d.pushedTo i := by
  unfold pushedTo
  rw [h]

/-- The default pipe has a ring, which carries control transfers only. -/
structure RingsFormed (d : Device) : Prop where
  wellFormed : ∀ i r, d.transferRings i = some r → r.WellFormed
  defaultPipe : ∃ r, d.transferRings 0 = some r
  control : ∀ trb ∈ d.pushedTo 0, trb.trbType ≠ NormalTRB.type

/-- The rings that are in use stay where they are, with all that was pushed to them. -/
def Extends (d d' : Device) : Prop :=
  ∀ i r, d.transferRings i = some r → r.pushed ≠ [] →
    ∃ r', d'.transferRings i = some r' ∧ r'.base = r.base ∧ r.pushed <+: r'.pushed

theorem extends_of_eq (h : d'.transferRings = d.transferRings) : d.Extends d' := by
  intro i r hr _
  exact ⟨r, by rw [h, hr], rfl, List.prefix_rfl⟩

theorem Extends.trans {d'' : Device} (h : d.Extends d') (h' : d'.Extends d'') : d.Extends d'' := by
  intro i r hr hused
  obtain ⟨r', hr', hbase, hprefix⟩ := h i r hr hused
  have hused' : r'.pushed ≠ [] := fun hempty => hused (List.prefix_nil.mp (hempty ▸ hprefix))
  obtain ⟨r'', hr'', hbase', hprefix'⟩ := h' i r' hr' hused'
  exact ⟨r'', hr'', hbase'.trans hbase, hprefix.trans hprefix'⟩

/-- One ring gets some TRBs. -/
structure RingPushed (d d' : Device) (i : ℕ) (new : List TRB) : Prop where
  rings : ∃ r r', d.transferRings i = some r ∧
    d'.transferRings = Function.update d.transferRings i (some r') ∧
    r'.base = r.base ∧ r'.pushed = r.pushed ++ new ∧ r'.WellFormed

namespace RingPushed

variable {i : ℕ} {new : List TRB}

theorem pushed (h : RingPushed d d' i new) : d'.pushedTo i = d.pushedTo i ++ new := by
  obtain ⟨r, r', hr, hrings, -, hpushed, -⟩ := h.rings
  have hr' : d'.transferRings i = some r' := by rw [hrings, Function.update_self]
  rw [pushedTo_of_eq hr, pushedTo_of_eq hr', hpushed]

theorem other (h : RingPushed d d' i new) {k : ℕ} (hk : k ≠ i) : d'.pushedTo k = d.pushedTo k := by
  obtain ⟨r, r', -, hrings, -⟩ := h.rings
  apply pushedTo_congr
  rw [hrings, Function.update_of_ne hk]

theorem toExtends (h : RingPushed d d' i new) : d.Extends d' := by
  obtain ⟨r, r', hr, hrings, hbase, hpushed, -⟩ := h.rings
  intro k rk hrk _
  by_cases hk : k = i
  · subst hk
    obtain rfl := Option.some.inj (hr.symm.trans hrk)
    exact ⟨r', by rw [hrings, Function.update_self], hbase, by rw [hpushed]; exact ⟨new, rfl⟩⟩
  · exact ⟨rk, by rw [hrings, Function.update_of_ne hk, hrk], rfl, List.prefix_rfl⟩

theorem ringsFormed (h : RingPushed d d' i new) (hformed : d.RingsFormed)
    (hcontrol : i = 0 → ∀ trb ∈ new, trb.trbType ≠ NormalTRB.type) : d'.RingsFormed := by
  obtain ⟨r, r', hr, hrings, hbase, hpushed, hwf⟩ := h.rings
  constructor
  · intro k rk hrk
    rw [hrings, Function.update_apply] at hrk
    split at hrk
    · rw [← Option.some.inj hrk]
      exact hwf
    · exact hformed.wellFormed k rk hrk
  · obtain ⟨r₀, hr₀⟩ := hformed.defaultPipe
    rw [hrings, Function.update_apply]
    split
    · exact ⟨r', rfl⟩
    · exact ⟨r₀, hr₀⟩
  · intro trb htrb
    by_cases hi : i = 0
    · subst hi
      rw [h.pushed] at htrb
      rcases List.mem_append.mp htrb with hold | hnew
      · exact hformed.control trb hold
      · exact hcontrol rfl trb hnew
    · rw [h.other (Ne.symm hi)] at htrb
      exact hformed.control trb htrb

end RingPushed

theorem RingsFormed.congr (h : d.RingsFormed) (hrings : d'.transferRings = d.transferRings) :
    d'.RingsFormed where
  wellFormed := by rw [hrings]; exact h.wellFormed
  defaultPipe := by rw [hrings]; exact h.defaultPipe
  control := by rw [pushedTo_congr (congrFun hrings 0)]; exact h.control

/-- A control transfer on the default pipe, with the entry of its setup stage. -/
theorem controlTransfer_pushed {dirIn : Bool} {setupData : SetupData} {address : BitVec 64}
    {size : ℕ} {issuer : Option ℕ} (hformed : d.RingsFormed)
    (h : controlTransfer dirIn d kDefaultControlPipeID setupData address size issuer =
      some (err, d')) :
    err = .kSuccess ∧ RingPushed d d' 0 (controlTrbs dirIn setupData address size) ∧
      d'.RingsFormed ∧ ∃ r rings waiters, d.transferRings 0 = some r ∧
        d' =
          { d with
            transferRings := rings
            eventWaiters := waiters
            setupStageMap := d.setupStageMap.put
              (Ring.slotAddress r.base ((r.pushed.length + 1) % 31))
              (Ring.slotAddress r.base (r.pushed.length % 31)) } := by
  obtain ⟨r, hr⟩ := hformed.defaultPipe
  obtain ⟨herr, completed, setupTrbPosition, r', waiters, hstages, rfl⟩ :=
    controlTransfer_default hr h
  -- the stages go to the next slots of the ring, and the map remembers the first of them
  obtain ⟨hwf, hbase, hpushed, rfl, rfl⟩ := pushStages_cases (hformed.wellFormed 0 r hr) hstages
  have hring : RingPushed d
      { d with
        eventWaiters := waiters
        transferRings := Function.update d.transferRings 0 (some r')
        setupStageMap := d.setupStageMap.put
          (Ring.slotAddress r.base ((r.pushed.length + 1) % 31))
          (Ring.slotAddress r.base (r.pushed.length % 31)) } 0
      (controlTrbs dirIn setupData address size) := ⟨r, r', hr, rfl, hbase, hpushed, hwf⟩
  exact ⟨herr, hring, hring.ringsFormed hformed fun _ _ => trbType_of_mem_controlTrbs,
    r, _, waiters, hr, rfl⟩

/-- An interrupt transfer, for an endpoint other than the default one. -/
theorem interruptIn_pushed {epId : EndpointID} {address : BitVec 64} {size : ℕ}
    (hformed : d.RingsFormed) (hother : epId.address ≠ 1)
    (h : d.interruptIn epId address size = some (err, d')) :
    d' = d ∨ ∃ i rings, i ≠ 0 ∧ i + 1 = epId.address ∧
      RingPushed d d' i [NormalTRB.make address size] ∧ d'.RingsFormed ∧
      d' = { d with transferRings := rings } := by
  rcases interruptIn_cases h with rfl | ⟨r, p, r', hindex, hr, hpush, rfl⟩
  · exact .inl rfl
  · right
    have hring : RingPushed d
        { d with
          transferRings := Function.update d.transferRings (epId.address - 1) (some r') }
        (epId.address - 1) [NormalTRB.make address size] :=
      ⟨r, r', hr, rfl, LoggedRing.push_base hpush, LoggedRing.push_pushed hpush,
        (hformed.wellFormed _ r hr).push hpush⟩
    exact ⟨epId.address - 1, _, by omega, by omega, hring,
      hring.ringsFormed hformed fun hzero => by omega, rfl⟩

end Device

end TommyOS.Usb
