import TommyOS.Usb.ConfiguredEndpoints
import TommyOS.Usb.HandlerCalls

/-!
# The endpoints that a device has stored

`MakeEPConfig` makes an index of what a device says about an endpoint, and the driver of the
device uses it much later. Here is what a device has stored at each stage, and that every handler
keeps it.
-/

namespace TommyOS.Usb

namespace Device

variable {m : Machine} {d d' d₁ : Device} {w : HIDBaseDriver} {err : Error} {trb : TRB}
  {buf : ℕ → BitVec 8} {len : ℤ} {i : ℕ}

/-! ## The calls of `InterruptIn` -/

/-- The endpoint that a handler calls `InterruptIn` for, if it does. -/
def Dispatch.interruptEndpoint (d : Device) : Dispatch → Option EndpointID
  | .error _ => none
  | .onInterruptCompleted epId len => do
    let i ← d.classDrivers epId.number
    let w ← d.drivers[i]?
    if epId.isIn ∧ len ≤ HIDBaseDriver.kBufferSize then some w.epInterruptIn else none
  | .onControlCompleted setupData _ _ =>
    if d.isInitialized then do
      let i ← d.eventWaiters.get setupData
      let w ← d.drivers[i]?
      if w.initializePhase = 1 then some w.epInterruptIn else none
    else
      none

/-- The endpoint that `InterruptIn` is called for while an event is handled. -/
def interruptEndpoint (m : Machine) (d : Device) (trb : TRB) : Option EndpointID :=
  (dispatch m d trb).1.interruptEndpoint (dispatch m d trb).2

/-- What an event with such a call comes to. -/
theorem onTransferEventReceived_interruptIn {epId : EndpointID}
    (h : d.interruptEndpoint m trb = some epId) :
    ∃ d₁ address size, SameTransfers (dispatch m d trb).2 d₁ ∧
      d.onTransferEventReceived m trb = d₁.interruptIn epId address size := by
  rw [onTransferEventReceived]
  unfold interruptEndpoint at h
  generalize dispatch m d trb = dispatched at h ⊢
  obtain ⟨call, d₀⟩ := dispatched
  -- of the handlers only the ones of the class driver ask for a report
  cases call with
  | error e => exact absurd h (by simp [Dispatch.interruptEndpoint])
  | onInterruptCompleted epId' len =>
    simp only [Dispatch.interruptEndpoint, Option.bind_eq_bind, Option.bind_eq_some_iff] at h
    obtain ⟨i, hi, w, hw, h⟩ := h
    split at h
    · next hin =>
      obtain rfl := Option.some.inj h
      simp only [handle, onInterruptCompleted, driverOnInterruptCompleted, hi, hw, if_pos hin.1,
        if_pos hin.2, Option.bind_eq_bind, Option.bind_some]
      refine ⟨_, _, _, ?_, rfl⟩
      exact ⟨rfl, rfl, rfl, rfl⟩
    · exact absurd h (by simp)
  | onControlCompleted setupData address len =>
    unfold Dispatch.interruptEndpoint at h
    simp only [Option.bind_eq_bind] at h
    split at h
    · next hinit =>
      simp only [Option.bind_eq_some_iff] at h
      obtain ⟨i, hi, w, hw, h⟩ := h
      split at h
      · next hphase =>
        obtain rfl := Option.some.inj h
        simp only [handle, onControlCompleted, driverOnControlCompleted, hi, hw, if_pos hinit,
          if_pos hphase, Option.bind_eq_bind, Option.bind_some]
        refine ⟨_, _, _, ?_, rfl⟩
        exact ⟨rfl, rfl, rfl, rfl⟩
      · exact absurd h (by simp)
    · exact absurd h (by simp)

/-- The rings are as they were, but for that of the default pipe. -/
def OthersKept (d d' : Device) : Prop := ∀ i, i ≠ 0 → d'.transferRings i = d.transferRings i

theorem othersKept_of_error {e : Error} (h : some (e, d) = some (err, d')) : OthersKept d d' := by
  rw [← (Prod.mk.inj (Option.some.inj h)).2]
  exact fun _ _ => rfl

theorem controlTransfer_othersKept {dirIn : Bool} {setupData : SetupData} {address : BitVec 64}
    {size : ℕ} {issuer : Option ℕ} (hrings : d₁.transferRings = d.transferRings)
    (h : d₁.controlTransfer dirIn kDefaultControlPipeID setupData address size issuer =
      some (err, d')) : OthersKept d d' := by
  intro i hi
  rcases controlTransfer_cases h with ⟨-, waiters, rfl⟩ | ⟨-, tr, _, _, tr', waiters, -, -, rfl⟩
  · exact congrFun hrings i
  · exact (Function.update_of_ne hi _ _).trans (congrFun hrings i)

theorem onControlCompleted_othersKept {setupData : SetupData} {address : BitVec 64}
    (hinit : d.isInitialized = false)
    (h : d.onControlCompleted m setupData address len = some (err, d')) : OthersKept d d' := by
  unfold onControlCompleted at h
  rw [if_neg (by rw [hinit]; exact Bool.false_ne_true)] at h
  -- the phases 1, 2 and 3, of which each expects one request
  split at h
  · split at h
    · simp only [Option.bind_eq_bind, Option.bind_eq_some_iff] at h
      obtain ⟨buf8, -, h⟩ := h
      split at h
      · unfold initializePhase1 getDescriptor controlIn at h
        refine controlTransfer_othersKept ?_ h
        rfl
      · exact othersKept_of_error h
    · exact othersKept_of_error h
  · split at h
    · split at h
      · simp only [Option.bind_eq_bind, Option.bind_eq_some_iff] at h
        obtain ⟨buf8, -, h⟩ := h
        split at h
        · unfold initializePhase2 at h
          split at h
          · exact othersKept_of_error h
          · simp only [Option.bind_eq_bind, Option.bind_eq_some_iff] at h
            obtain ⟨⟨driver, d₁⟩, hread, h⟩ := h
            have hrings := (readInterfaces_same hread).rings
            split at h
            · next heq =>
              obtain ⟨-, rfl⟩ := Prod.mk.inj heq
              rw [← (Prod.mk.inj (Option.some.inj h)).2]
              exact fun i _ => congrFun hrings i
            · next heq =>
              obtain ⟨-, rfl⟩ := Prod.mk.inj heq
              unfold setConfiguration controlOut at h
              refine controlTransfer_othersKept ?_ h
              exact hrings
        · exact othersKept_of_error h
      · exact othersKept_of_error h
    · split at h
      · split at h
        · unfold initializePhase3 at h
          simp only [Option.bind_eq_bind, Option.bind_eq_some_iff, Option.some.injEq,
            Prod.mk.injEq] at h
          obtain ⟨d₁, hset, -, rfl⟩ := h
          exact fun i _ => congrFun (setEndpoints_same hset).rings i
        · exact othersKept_of_error h
      · exact othersKept_of_error h

/-- Without such a call an event leaves the rings alone that are not of the default pipe. -/
theorem onTransferEventReceived_othersKept (hnone : d.interruptEndpoint m trb = none)
    (h : d.onTransferEventReceived m trb = some (err, d')) : OthersKept d d' := by
  have hsame : OthersKept (dispatch m d trb).2 d' → OthersKept d d' := by
    intro hkept i hi
    rw [hkept i hi]
    rcases dispatch_device m d trb with heq | heq
    · rw [heq]
    · rw [heq]
  refine hsame ?_
  rw [onTransferEventReceived] at h
  unfold interruptEndpoint at hnone
  generalize dispatch m d trb = dispatched at h hnone ⊢
  obtain ⟨call, d₀⟩ := dispatched
  -- a handler of the class driver that asks for no report changes no ring
  cases call with
  | error e => exact othersKept_of_error h
  | onInterruptCompleted epId len =>
    replace h : d₀.onInterruptCompleted m epId len = some (err, d') := h
    unfold onInterruptCompleted at h
    split at h
    · next i hi =>
      unfold driverOnInterruptCompleted at h
      simp only [Option.bind_eq_bind, Option.bind_eq_some_iff] at h
      obtain ⟨w, hw, h⟩ := h
      simp only [Dispatch.interruptEndpoint, hi, hw, Option.bind_eq_bind, Option.bind_some] at hnone
      split at h
      · next hin =>
        split at h
        · next hlen =>
          rw [if_pos ⟨hin, hlen⟩] at hnone
          exact absurd hnone (by simp)
        · exact absurd h (by simp)
      · exact othersKept_of_error h
    · exact othersKept_of_error h
  | onControlCompleted setupData address len =>
    replace h : d₀.onControlCompleted m setupData address len = some (err, d') := h
    by_cases hinit : d₀.isInitialized = true
    · unfold onControlCompleted at h
      rw [if_pos hinit] at h
      split at h
      · next i hi =>
        unfold driverOnControlCompleted at h
        simp only [Option.bind_eq_bind, Option.bind_eq_some_iff] at h
        obtain ⟨w, hw, h⟩ := h
        simp only [Dispatch.interruptEndpoint, hi, hw, if_pos hinit, Option.bind_eq_bind,
          Option.bind_some] at hnone
        split at h
        · next hphase =>
          rw [if_pos hphase] at hnone
          exact absurd hnone (by simp)
        · exact othersKept_of_error h
      · exact othersKept_of_error h
    · exact onControlCompleted_othersKept (Bool.eq_false_iff.mpr hinit) h

/-! ## Normal transfers -/

/-- A normal TRB was pushed for some endpoint. -/
def NormalPushed (d : Device) : Prop := ∃ i, ∃ trb ∈ d.pushedTo i, trb.trbType = NormalTRB.type

theorem normalPushed_congr (h : d'.transferRings = d.transferRings) :
    d'.NormalPushed ↔ d.NormalPushed := by
  unfold NormalPushed
  simp only [pushedTo_congr (congrFun h _)]

/-- The rings of a device change, without another normal TRB. -/
def NoNormal (d d' : Device) : Prop := d'.NormalPushed → d.NormalPushed

theorem noNormal_of_eq (h : d'.transferRings = d.transferRings) : NoNormal d d' :=
  (normalPushed_congr h).mp

/-- Another ring takes the place of one, with no other normal TRB. -/
theorem noNormal_update {tr : LoggedRing} {k : ℕ}
    (hrings : d'.transferRings = Function.update d.transferRings k (some tr))
    (hpushed : ∀ trb ∈ tr.pushed, trb.trbType = NormalTRB.type → trb ∈ d.pushedTo k) :
    NoNormal d d' := by
  rintro ⟨i, trb, htrb, htype⟩
  by_cases hi : i = k
  · rw [hi, pushedTo_of_eq (by rw [hrings, Function.update_self])] at htrb
    exact ⟨k, trb, hpushed trb htrb htype, htype⟩
  · have hsame : d'.pushedTo i = d.pushedTo i :=
      pushedTo_congr (by rw [hrings, Function.update_of_ne hi])
    rw [hsame] at htrb
    exact ⟨i, trb, htrb, htype⟩

/-- What a control transfer changes: the rings, with no normal TRB, and the maps. -/
theorem controlTransfer_noNormal {dirIn : Bool} {epId : EndpointID} {setupData : SetupData}
    {address : BitVec 64} {size : ℕ} {issuer : Option ℕ}
    (h : controlTransfer dirIn d epId setupData address size issuer = some (err, d')) :
    NoNormal d d' ∧ ∃ rings stages, d' =
      { d.putWaiter setupData issuer with transferRings := rings, setupStageMap := stages } := by
  have hrings : (d.putWaiter setupData issuer).transferRings = d.transferRings := by
    obtain ⟨waiters, hwaiters⟩ := d.putWaiter_eq setupData issuer
    rw [hwaiters]
  rcases controlTransfer_putWaiter h with ⟨-, rfl⟩ | ⟨-, tr, completed, setupTrbPosition, tr', htr,
    hstages, rfl⟩
  · exact ⟨noNormal_of_eq hrings, _, _, rfl⟩
  · refine ⟨noNormal_update rfl fun trb htrb htype => ?_, _, _, rfl⟩
    rw [pushStages_pushed hstages] at htrb
    rcases List.mem_append.mp htrb with hold | hnew
    · rwa [pushedTo_of_eq htr]
    · exact absurd htype (trbType_of_mem_controlTrbs hnew)

/-! ## What a device has stored -/

/-- A device that has no driver yet. -/
structure Undriven (d : Device) : Prop where
  isInitialized : d.isInitialized = false
  phase : d.initializePhase ≠ 3
  drivers : d.drivers = []
  classDrivers : ∀ n, d.classDrivers n = none
  waiters : ∀ key i, ¬ d.eventWaiters.HasEntry key i
  quiet : ¬ d.NormalPushed

/-- A device with no endpoints for its driver, which is never called then. -/
structure Unserved (d : Device) : Prop where
  numEpConfigs : d.numEpConfigs = 0
  classDrivers : ∀ n, d.classDrivers n = none
  waiters : ∀ key i, ¬ d.eventWaiters.HasEntry key i

/-- A device with one driver, and its endpoints. -/
structure Driven (d : Device) (w : HIDBaseDriver) : Prop where
  drivers : d.drivers = [w]
  inRange : ∀ n < d.numEpConfigs, (d.epConfigs n).epId.InRange

/-- A device before its configuration, before its driver has its endpoints, and with both. -/
inductive EndpointStage (d : Device) : Prop where
  | undriven : Undriven d → EndpointStage d
  | configured (w : HIDBaseDriver) : d.isInitialized = false → d.initializePhase = 3 →
      Driven d w → ¬ d.NormalPushed →
      (Unserved d ∨ ∃ n < d.numEpConfigs, (d.epConfigs n).epType = .kInterrupt ∧
        (d.epConfigs n).epId.isIn = true) → EndpointStage d
  | ready (w : HIDBaseDriver) : d.isInitialized = true → d.initializePhase ≠ 0 → Driven d w →
      (Unserved d ∨ w.epInterruptIn.InRange) → EndpointStage d

theorem undriven_new (slotId : BitVec 8) (addresses : DeviceAddresses) :
    (new slotId addresses).Undriven where
  isInitialized := rfl
  phase := show (0 : ℕ) ≠ 3 by decide
  drivers := rfl
  classDrivers := fun _ => rfl
  waiters := fun _ _ => ArrayMap.not_hasEntry_empty 4
  quiet := by
    rintro ⟨i, trb, htrb, -⟩
    exact absurd htrb List.not_mem_nil

/-- The endpoints of a device that is initialized. -/
theorem EndpointStage.inRange (h : d.EndpointStage) (hinit : d.isInitialized = true) :
    ∀ n < d.numEpConfigs, (d.epConfigs n).epId.InRange := by
  cases h with
  | undriven h =>
    rw [h.isInitialized] at hinit
    exact absurd hinit Bool.false_ne_true
  | configured _ hnot _ _ _ _ =>
    rw [hnot] at hinit
    exact absurd hinit Bool.false_ne_true
  | ready _ _ _ hdriven _ => exact hdriven.inRange

/-- Rings, contexts and setup stages do not matter, but for normal TRBs. -/
theorem EndpointStage.congr (h : d.EndpointStage) {ctx : InputContext}
    {rings : ℕ → Option LoggedRing} {stages : ArrayMap (BitVec 64) (BitVec 64)}
    (hd : d' = { d with inputContext := ctx, transferRings := rings, setupStageMap := stages })
    (hnormal : NoNormal d d' ∨ d.isInitialized = true) : d'.EndpointStage := by
  have hquiet : d.isInitialized = false → ¬ d.NormalPushed → ¬ d'.NormalPushed := by
    intro hinit hquiet
    refine mt (hnormal.resolve_right ?_) hquiet
    rw [hinit]
    exact Bool.false_ne_true
  cases h with
  | undriven h =>
    have hquiet' := hquiet h.isInitialized h.quiet
    subst hd
    exact .undriven ⟨h.isInitialized, h.phase, h.drivers, h.classDrivers, h.waiters, hquiet'⟩
  | configured w hinit hphase hdriven hnone hends =>
    have hquiet' := hquiet hinit hnone
    subst hd
    refine .configured w hinit hphase ⟨hdriven.drivers, hdriven.inRange⟩ hquiet' ?_
    exact hends.imp_left fun h => ⟨h.numEpConfigs, h.classDrivers, h.waiters⟩
  | ready w hinit hphase hdriven hends =>
    subst hd
    refine .ready w hinit hphase ⟨hdriven.drivers, hdriven.inRange⟩ ?_
    exact hends.imp_left fun h => ⟨h.numEpConfigs, h.classDrivers, h.waiters⟩

/-- A request that nothing waits for. -/
theorem EndpointStage.controlTransfer (h : d.EndpointStage) {dirIn : Bool} {epId : EndpointID}
    {setupData : SetupData} {address : BitVec 64} {size : ℕ}
    (hcall : controlTransfer dirIn d epId setupData address size none = some (err, d')) :
    d'.EndpointStage := by
  obtain ⟨hnormal, rings, stages, hd⟩ := controlTransfer_noNormal hcall
  exact h.congr hd (.inl hnormal)

/-! ## The initialization -/

theorem startInitialize_stage (h : d.EndpointStage) (hfirst : d.initializePhase = 0)
    (hcall : d.startInitialize = some (err, d')) : d'.EndpointStage := by
  unfold startInitialize getDescriptor controlIn at hcall
  refine EndpointStage.controlTransfer ?_ hcall
  cases h with
  | undriven h =>
    exact .undriven ⟨rfl, show (1 : ℕ) ≠ 3 by decide, h.drivers, h.classDrivers, h.waiters,
      h.quiet⟩
  | configured w hinit hphase hdriven hnone hends =>
    rw [hphase] at hfirst
    exact absurd hfirst (by decide)
  | ready w hinit hphase hdriven hends => exact absurd hfirst hphase

theorem initializePhase1_stage (h : d.Undriven) (hcall : d.initializePhase1 buf = some (err, d')) :
    d'.EndpointStage := by
  unfold initializePhase1 getDescriptor controlIn at hcall
  refine EndpointStage.controlTransfer ?_ hcall
  exact .undriven ⟨h.isInitialized, show (2 : ℕ) ≠ 3 by decide, h.drivers, h.classDrivers,
    h.waiters, h.quiet⟩

open ConfigurationParser in
theorem initializePhase2_stage (h : d.Undriven) (husable : UsableEndpoints buf len.toNat)
    (hcall : d.initializePhase2 m buf len = some (err, d')) : d'.EndpointStage := by
  unfold initializePhase2 at hcall
  split at hcall
  · rw [← (Prod.mk.inj (Option.some.inj hcall)).2]
    exact .undriven h
  · simp only [Option.bind_eq_bind, Option.bind_eq_some_iff] at hcall
    obtain ⟨⟨driver, d₁⟩, hread, hcall⟩ := hcall
    rcases readInterfaces_reads (k := 0) passed_zero hread with ⟨rfl, rfl⟩ |
      ⟨i, k, p, e, address, size, epConfigs, numEpConfigs, classDrivers, rfl, hfirst, hentered,
        hall, hd₁, hnone⟩
    · rw [← (Prod.mk.inj (Option.some.inj hcall)).2]
      exact .undriven h
    · simp only at hcall
      unfold setConfiguration controlOut at hcall
      refine EndpointStage.controlTransfer ?_ hcall
      have hrange : ∀ n < d₁.numEpConfigs, (d₁.epConfigs n).epId.InRange := fun n hn =>
        hentered.inRange husable hfirst hn
      -- an interface that asks for endpoints has one for reports; any other leaves no class driver
      have hends : Unserved d₁ ∨ ∃ n < d₁.numEpConfigs,
          (d₁.epConfigs n).epType = .kInterrupt ∧ (d₁.epConfigs n).epId.isIn = true := by
        by_cases hwanted : numEndpoints buf p = 0
        · refine .inl ⟨Nat.le_zero.mp (hwanted ▸ hentered.bound), fun n => ?_, fun key i => ?_⟩
          · rw [hd₁]
            show classDrivers n = none
            rw [hnone hwanted]
            exact h.classDrivers n
          · rw [hd₁]
            exact h.waiters key i
        · exact .inr (hentered.interruptIn husable hfirst hall hwanted)
      have hquiet : ¬ d₁.NormalPushed := by
        rw [normalPushed_congr (d := d) (by rw [hd₁]; rfl)]
        exact h.quiet
      refine .configured (.new address (buf (p + 2)) size) ?_ rfl ⟨?_, hrange⟩ hquiet ?_
      · show d₁.isInitialized = false
        rw [hd₁]
        exact h.isInitialized
      · show d₁.drivers = _
        rw [hd₁]
        show d.drivers ++ _ = _
        rw [h.drivers]
        rfl
      · exact hends.imp_left fun h => ⟨h.numEpConfigs, h.classDrivers, h.waiters⟩

theorem initializePhase3_stage (h : d.EndpointStage) (hinit : d.isInitialized = false)
    (hphase : d.initializePhase = 3) (hcall : d.initializePhase3 = some (err, d')) :
    d'.EndpointStage := by
  cases h with
  | undriven h => exact absurd hphase h.phase
  | ready w hready _ _ _ =>
    rw [hinit] at hready
    exact absurd hready Bool.false_ne_true
  | configured w _ _ hdriven _ hends =>
    unfold initializePhase3 at hcall
    simp only [Option.bind_eq_bind, Option.bind_eq_some_iff, Option.some.injEq,
      Prod.mk.injEq] at hcall
    obtain ⟨d₁, hset, -, rfl⟩ := hcall
    obtain ⟨w', rfl, -, hin⟩ := setEndpoints_driver hdriven.drivers hset
    refine .ready w' rfl (show (4 : ℕ) ≠ 0 by decide) ⟨rfl, hdriven.inRange⟩ ?_
    rcases hends with hunserved | ⟨n, hn, hinterrupt⟩
    · exact .inl ⟨hunserved.numEpConfigs, hunserved.classDrivers, hunserved.waiters⟩
    · right
      rcases hin with ⟨-, hnone⟩ | ⟨k, hk, hin⟩
      · exact absurd hinterrupt (hnone n hn)
      · rw [hin]
        exact hdriven.inRange k hk

/-! ## The driver -/

/-- The driver changes, but not the endpoint that it reads. -/
theorem EndpointStage.setDriver (h : d.EndpointStage) {w' : HIDBaseDriver}
    (hw : d.drivers[i]? = some w) (hin : w'.epInterruptIn = w.epInterruptIn) :
    (d.setDriver i w').EndpointStage := by
  have hset : ∀ {w₀}, d.Driven w₀ → w₀ = w ∧ (d.setDriver i w').Driven w' := by
    intro w₀ hdriven
    obtain ⟨rfl, rfl⟩ := getElem?_driver hdriven.drivers hw
    refine ⟨rfl, ?_, hdriven.inRange⟩
    show d.drivers.set 0 w' = [w']
    rw [hdriven.drivers]
    rfl
  cases h with
  | undriven h =>
    rw [h.drivers] at hw
    exact absurd hw (by simp)
  | configured w₀ hinit hphase hdriven hnone hends =>
    refine .configured w' hinit hphase (hset hdriven).2 hnone ?_
    exact hends.imp_left fun h => ⟨h.numEpConfigs, h.classDrivers, h.waiters⟩
  | ready w₀ hinit hphase hdriven hends =>
    obtain ⟨rfl, hdriven'⟩ := hset hdriven
    refine .ready w' hinit hphase hdriven' ?_
    rw [hin]
    exact hends.imp_left fun h => ⟨h.numEpConfigs, h.classDrivers, h.waiters⟩

/-- A report is asked for, which only a device with its driver does. -/
theorem interruptIn_stage (h : d.EndpointStage) (hinit : d.isInitialized = true)
    {epId : EndpointID} {address : BitVec 64} {size : ℕ}
    (hcall : d.interruptIn epId address size = some (err, d')) : d'.EndpointStage := by
  rcases interruptIn_cases hcall with rfl | ⟨tr, p, tr', -, -, -, hd⟩
  · exact h
  · exact h.congr hd (.inr hinit)

/-- A device with a normal TRB is initialized. -/
theorem EndpointStage.isInitialized (h : d.EndpointStage) (hnormal : d.NormalPushed) :
    d.isInitialized = true := by
  cases h with
  | undriven h => exact absurd hnormal h.quiet
  | configured _ _ _ _ hquiet _ => exact absurd hnormal hquiet
  | ready _ hinit _ _ _ => exact hinit

theorem onInterruptCompleted_stage (h : d.EndpointStage) (hinit : d.isInitialized = true)
    {epId : EndpointID} (hcall : d.onInterruptCompleted m epId len = some (err, d')) :
    d'.EndpointStage := by
  unfold onInterruptCompleted driverOnInterruptCompleted at hcall
  split at hcall
  · simp only [Option.bind_eq_bind, Option.bind_eq_some_iff] at hcall
    obtain ⟨w, hw, hcall⟩ := hcall
    split at hcall
    · split at hcall
      · refine interruptIn_stage ?_ ?_ hcall
        · exact h.setDriver hw rfl
        · exact hinit
      · exact absurd hcall (by simp)
    · rw [← (Prod.mk.inj (Option.some.inj hcall)).2]
      exact h
  · rw [← (Prod.mk.inj (Option.some.inj hcall)).2]
    exact h

open ConfigurationParser in
theorem onControlCompleted_stage (h : d.EndpointStage) {setupData : SetupData}
    {address : BitVec 64}
    (husable : d.isInitialized = false → d.initializePhase = 2 →
      setupData.request = request.kGetDescriptor → ∀ buf, bytesAt m address = some buf →
      buf 1 = descriptor.kConfiguration → UsableEndpoints buf len.toNat)
    (hcall : d.onControlCompleted m setupData address len = some (err, d')) :
    d'.EndpointStage := by
  have hsame : ∀ {e : Error}, some (e, d) = some (err, d') → d'.EndpointStage := by
    intro e heq
    rw [← (Prod.mk.inj (Option.some.inj heq)).2]
    exact h
  unfold onControlCompleted at hcall
  split at hcall
  · next hinit =>
    -- the driver goes on
    split at hcall
    · unfold driverOnControlCompleted at hcall
      simp only [Option.bind_eq_bind, Option.bind_eq_some_iff] at hcall
      obtain ⟨w, hw, hcall⟩ := hcall
      split at hcall
      · refine interruptIn_stage ?_ ?_ hcall
        · exact h.setDriver hw rfl
        · exact hinit
      · exact hsame hcall
    · exact hsame hcall
  · next hinit =>
    have hinit' : d.isInitialized = false := Bool.eq_false_iff.mpr hinit
    have hundriven : d.initializePhase ≠ 3 → d.Undriven := by
      intro hphase
      cases h with
      | undriven h => exact h
      | configured _ _ hphase' _ _ _ => exact absurd hphase' hphase
      | ready _ hready _ _ _ => exact absurd hready hinit
    split at hcall
    · next hphase =>
      split at hcall
      · simp only [Option.bind_eq_bind, Option.bind_eq_some_iff] at hcall
        obtain ⟨buf8, -, hcall⟩ := hcall
        split at hcall
        · exact initializePhase1_stage (hundriven (by omega)) hcall
        · exact hsame hcall
      · exact hsame hcall
    · split at hcall
      · next hphase =>
        split at hcall
        · next hrequest =>
          simp only [Option.bind_eq_bind, Option.bind_eq_some_iff] at hcall
          obtain ⟨buf8, hbuf8, hcall⟩ := hcall
          split at hcall
          · next htype =>
            exact initializePhase2_stage (hundriven (by omega))
              (husable hinit' hphase hrequest buf8 hbuf8 htype) hcall
          · exact hsame hcall
        · exact hsame hcall
      · split at hcall
        · next hphase =>
          split at hcall
          · exact initializePhase3_stage h hinit' hphase hcall
          · exact hsame hcall
        · exact hsame hcall

/-! ## Events -/

/-- An event about a normal TRB comes behind such a TRB. -/
def GenuineEvent (m : Machine) (d : Device) (trb : TRB) : Prop :=
  (m.trbAt (TransferEventTRB.pointer trb)).trbType = NormalTRB.type → d.NormalPushed

open ConfigurationParser in
/-- When an event is the answer that `InitializePhase2` gets, the endpoints in it are usable. -/
def UsableAnswer (m : Machine) (d : Device) (trb : TRB) : Prop :=
  d.isInitialized = false → d.initializePhase = 2 → ∀ setupData address len buf,
    (dispatch m d trb).1 = .onControlCompleted setupData address len →
    setupData.request = request.kGetDescriptor → bytesAt m address = some buf →
    buf 1 = descriptor.kConfiguration → UsableEndpoints buf len.toNat

theorem normal_of_dispatch {epId : EndpointID}
    (h : (dispatch m d trb).1 = .onInterruptCompleted epId len) :
    (m.trbAt (TransferEventTRB.pointer trb)).trbType = NormalTRB.type := by
  have hbranch := dispatched m d trb
  generalize dispatch m d trb = result at hbranch h
  cases hbranch with
  | refused _ => cases h
  | normal htype => exact htype
  | data _ _ => cases h
  | status _ _ => cases h
  | other _ => cases h

/-- The request that a control transfer completes was read back from some setup stage; only a data
stage has an answer. -/
theorem control_of_dispatch {setupData : SetupData} {address : BitVec 64}
    (h : (dispatch m d trb).1 = .onControlCompleted setupData address len) :
    (∃ setupStage, setupData = SetupStageTRB.setupData (m.trbAt setupStage)) ∧
      (address = 0#64 ∨
        address = (m.trbAt (TransferEventTRB.pointer trb)).parameter ∧
          len = TransferEventTRB.transferLength trb (m.trbAt (TransferEventTRB.pointer trb))) := by
  have hbranch := dispatched m d trb
  generalize dispatch m d trb = result at hbranch h
  cases hbranch with
  | refused _ => cases h
  | normal _ => cases h
  | @data setupStage _ _ =>
    obtain ⟨rfl, rfl, rfl⟩ := Dispatch.onControlCompleted.inj h
    exact ⟨⟨setupStage, rfl⟩, .inr ⟨rfl, rfl⟩⟩
  | @status setupStage _ _ =>
    obtain ⟨rfl, rfl, rfl⟩ := Dispatch.onControlCompleted.inj h
    exact ⟨⟨setupStage, rfl⟩, .inl rfl⟩
  | other _ => cases h

/-- It is enough to look at the data of an event. -/
theorem usableAnswer_of_data
    (h : ∀ buf, bytesAt m (m.trbAt (TransferEventTRB.pointer trb)).parameter = some buf →
      buf 1 = descriptor.kConfiguration → ConfigurationParser.UsableEndpoints buf
        (TransferEventTRB.transferLength trb (m.trbAt (TransferEventTRB.pointer trb))).toNat) :
    d.UsableAnswer m trb := by
  intro _ _ setupData address len buf hdispatch _ hbuf htype
  obtain ⟨-, rfl | ⟨rfl, rfl⟩⟩ := control_of_dispatch hdispatch
  · exact absurd hbuf (by simp [bytesAt])
  · exact h buf hbuf htype

/-- What is stored does not change before a handler is called. -/
theorem EndpointStage.dispatch (h : d.EndpointStage) (m : Machine) (trb : TRB) :
    (d.dispatch m trb).2.EndpointStage ∧ (d.dispatch m trb).2.isInitialized = d.isInitialized ∧
      (d.dispatch m trb).2.initializePhase = d.initializePhase := by
  rcases dispatch_device m d trb with heq | heq
  · rw [heq]
    exact ⟨h, rfl, rfl⟩
  · rw [heq]
    exact ⟨h.congr rfl (.inl (noNormal_of_eq rfl)), rfl, rfl⟩

theorem onTransferEventReceived_stage (h : d.EndpointStage) (hgenuine : d.GenuineEvent m trb)
    (husable : d.UsableAnswer m trb) (hcall : d.onTransferEventReceived m trb = some (err, d')) :
    d'.EndpointStage := by
  obtain ⟨hstage, hinit, hphase⟩ := h.dispatch m trb
  unfold UsableAnswer at husable
  have hnormal := @normal_of_dispatch m d trb
  rw [onTransferEventReceived] at hcall
  rw [← hinit, ← hphase] at husable
  generalize d.dispatch m trb = dispatched at hcall hstage hinit husable hnormal
  obtain ⟨call, d₀⟩ := dispatched
  cases call with
  | error e =>
    rw [← (Prod.mk.inj (Option.some.inj hcall)).2]
    exact hstage
  | onInterruptCompleted epId len =>
    refine onInterruptCompleted_stage hstage ?_ hcall
    rw [hinit]
    exact h.isInitialized (hgenuine (hnormal rfl))
  | onControlCompleted setupData address len =>
    exact onControlCompleted_stage hstage
      (fun hinit₀ hphase₀ hrequest buf hbuf htype =>
        husable hinit₀ hphase₀ setupData address len buf rfl hrequest hbuf htype) hcall

/-- `InterruptIn` is called for an endpoint in the range. -/
theorem interruptEndpoint_inRange (h : d.EndpointStage) (hgenuine : d.GenuineEvent m trb)
    {epId : EndpointID} (hcall : d.interruptEndpoint m trb = some epId) : epId.InRange := by
  obtain ⟨hstage, hinit, -⟩ := h.dispatch m trb
  have hnormal := @normal_of_dispatch m d trb
  unfold interruptEndpoint at hcall
  generalize d.dispatch m trb = dispatched at hcall hstage hinit hnormal
  obtain ⟨call, d₀⟩ := dispatched
  simp only at hcall hstage hinit
  -- a device that is initialized and has something for its driver
  have hserved : d₀.isInitialized = true → ¬ d₀.Unserved → ∀ (i : ℕ) (w : HIDBaseDriver),
      d₀.drivers[i]? = some w → w.epInterruptIn.InRange := by
    intro hready hserved i w hw
    cases hstage with
    | undriven h =>
      rw [h.isInitialized] at hready
      exact absurd hready Bool.false_ne_true
    | configured _ hnot _ _ _ _ =>
      rw [hnot] at hready
      exact absurd hready Bool.false_ne_true
    | ready w₀ _ _ hdriven hends =>
      obtain ⟨-, rfl⟩ := getElem?_driver hdriven.drivers hw
      exact hends.resolve_left hserved
  cases call with
  | error e => exact absurd hcall (by simp [Dispatch.interruptEndpoint])
  | onInterruptCompleted epId' len =>
    simp only [Dispatch.interruptEndpoint, Option.bind_eq_bind, Option.bind_eq_some_iff] at hcall
    obtain ⟨i, hi, w, hw, hcall⟩ := hcall
    split at hcall
    · rw [← Option.some.inj hcall]
      refine hserved ?_ (fun hunserved => ?_) i w hw
      · rw [hinit]
        exact h.isInitialized (hgenuine (hnormal rfl))
      · rw [hunserved.classDrivers] at hi
        exact absurd hi (by simp)
    · exact absurd hcall (by simp)
  | onControlCompleted setupData address len =>
    unfold Dispatch.interruptEndpoint at hcall
    simp only [Option.bind_eq_bind] at hcall
    split at hcall
    · next hready =>
      simp only [Option.bind_eq_some_iff] at hcall
      obtain ⟨i, hi, w, hw, hcall⟩ := hcall
      split at hcall
      · rw [← Option.some.inj hcall]
        exact hserved hready (fun hunserved => hunserved.waiters _ _
          (ArrayMap.hasEntry_of_get hi)) i w hw
      · exact absurd hcall (by simp)
    · exact absurd hcall (by simp)

/-! ## The configuration of the endpoints -/

/-- The request of the driver, which is called when it has an endpoint. -/
theorem driverOnEndpointsConfigured_stage (h : d.EndpointStage) {n : ℕ}
    (hclass : d.classDrivers n = some i)
    (hcall : d.driverOnEndpointsConfigured i = some (err, d')) : d'.EndpointStage := by
  unfold driverOnEndpointsConfigured controlOut at hcall
  simp only [Option.bind_eq_bind, Option.bind_eq_some_iff] at hcall
  obtain ⟨w, hw, hcall⟩ := hcall
  have hset : (d.setDriver i { w with initializePhase := 1 }).EndpointStage := h.setDriver hw rfl
  have hclass' : (d.setDriver i { w with initializePhase := 1 }).classDrivers n = some i := hclass
  generalize d.setDriver i { w with initializePhase := 1 } = d₀ at hcall hset hclass'
  have hserved : ¬ d₀.Unserved := by
    intro hunserved
    rw [hunserved.classDrivers] at hclass'
    exact absurd hclass' (by simp)
  obtain ⟨hnormal, rings, stages, rfl⟩ := controlTransfer_noNormal hcall
  cases hset with
  | undriven h =>
    rw [h.classDrivers] at hclass'
    exact absurd hclass' (by simp)
  | configured w₀ hinit hphase hdriven hquiet hends =>
    exact .configured w₀ hinit hphase ⟨hdriven.drivers, hdriven.inRange⟩ (mt hnormal hquiet)
      (.inr (hends.resolve_left hserved))
  | ready w₀ hinit hphase hdriven hends =>
    exact .ready w₀ hinit hphase ⟨hdriven.drivers, hdriven.inRange⟩
      (.inr (hends.resolve_left hserved))

theorem onEndpointsConfiguredFrom_stage {ns : List ℕ} (h : d.EndpointStage)
    (hcall : d.onEndpointsConfiguredFrom ns = some (err, d')) : d'.EndpointStage := by
  induction ns generalizing d with
  | nil =>
    rw [← (Prod.mk.inj (Option.some.inj hcall)).2]
    exact h
  | cons n rest ih =>
    unfold onEndpointsConfiguredFrom at hcall
    split at hcall
    · exact ih h hcall
    · next i hclass =>
      simp only [Option.bind_eq_bind, Option.bind_eq_some_iff] at hcall
      obtain ⟨⟨err₁, d₁⟩, hdriver, hcall⟩ := hcall
      have h₁ := driverOnEndpointsConfigured_stage h hclass hdriver
      simp only at hcall
      split at hcall
      · rw [← (Prod.mk.inj (Option.some.inj hcall)).2]
        exact h₁
      · exact ih h₁ hcall

end Device

end TommyOS.Usb
