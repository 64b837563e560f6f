import TommyOS.Lib.TransitionSystem
import TommyOS.Usb.DeviceStages

/-!
# From a completion back to its request

The controller reports a transfer by the address of the TRB that completes it, and a device finds
the request again by looking that up in `setup_stage_map_`. Here are the runs of any number of
control transfers on the endpoints of a device, and what the map holds in them.
-/

namespace TommyOS.Usb

namespace Device

variable {m : Machine} {d d' : Device} {trb : TRB} {err : Error}

/-! ## The call of a handler -/

/-- The codes of a completion that succeeded: all of the data, or a short packet. -/
def Succeeded (trb : TRB) : Prop :=
  TransferEventTRB.completionCode trb = 1#8 ∨ TransferEventTRB.completionCode trb = 13#8

theorem dispatch_failed (h : ¬ Succeeded trb) :
    dispatch m d trb = (.error .kTransferFailed, d) := by
  unfold Succeeded at h
  rw [not_or] at h
  unfold dispatch
  rw [if_pos h]

/-- The map is the only member that changes before a handler is called. -/
theorem dispatch_device (m : Machine) (d : Device) (trb : TRB) :
    (dispatch m d trb).2 = d ∨
      (dispatch m d trb).2 =
        { d with setupStageMap := d.setupStageMap.delete (TransferEventTRB.pointer trb) } := by
  have hbranch := dispatched m d trb
  generalize dispatch m d trb = r at hbranch ⊢
  cases hbranch with
  | refused err => exact .inl rfl
  | normal htype => exact .inl rfl
  | data hget htype => exact .inr rfl
  | status hget htype => exact .inr rfl
  | other hget => exact .inr rfl

end Device

/-! ## Runs -/

/-- A control transfer that was issued on the ring with an index, where its first TRB has the
number `start`. The event of its completion points to the address `completed`; `stages` is
`setup_stage_map_` as the call found it. -/
structure Transfer where
  index : ℕ
  start : ℕ
  completed : BitVec 64
  dirIn : Bool
  setupData : SetupData
  buf : BitVec 64
  len : ℕ
  stages : ArrayMap (BitVec 64) (BitVec 64)

namespace Transfer

def trbs (t : Transfer) : List TRB := controlTrbs t.dirIn t.setupData t.buf t.len

/-- The entry of the transfer had a slot, or found one with its key. -/
def Noted (t : Transfer) : Prop :=
  t.stages.HasRoom ∨ ∃ value, t.stages.HasEntry t.completed value

/-- The transfer that a call of a device issues. -/
def issued (d : Device) (dirIn : Bool) (epId : EndpointID) (setupData : SetupData)
    (buf : BitVec 64) (len : ℕ) : Transfer where
  index := epId.address - 1
  start := (d.pushedTo (epId.address - 1)).length
  completed := match d.transferRings (epId.address - 1) with
    | some r => Ring.slotAddress r.base ((r.pushed.length + 1) % 31)
    | none => 0#64
  dirIn := dirIn
  setupData := setupData
  buf := buf
  len := len
  stages := d.setupStageMap

end Transfer

/-- A device, and the transfers the controller has not completed. -/
structure TransferState where
  device : Device
  outstanding : List Transfer

/-- The rings have their 32 slots, each its own. -/
structure RingsApart (d : Device) : Prop where
  wellFormed : ∀ i r, d.transferRings i = some r → r.WellFormed
  apart : ∀ i i' r r', d.transferRings i = some r → d.transferRings i' = some r' →
    ∀ a a', a < 31 → a' < 31 → Ring.slotAddress r.base a = Ring.slotAddress r'.base a' → i = i'

/-- No TRB of an outstanding transfer has been overwritten. -/
def NotOverrun (d : Device) (ts : List Transfer) : Prop :=
  ∀ t ∈ ts, (d.pushedTo t.index).length ≤ t.start + 31

/-- A call of `ControlIn` or `ControlOut`, the completion of a transfer up to the call of the
handler, or anything else that is done with the device: the transfers of other kinds, and what
a handler does between its own calls. -/
inductive TransferStep (s : TransferState) : TransferState → Prop where
  | issued {dirIn : Bool} {epId : EndpointID} {setupData : SetupData} {buf : BitVec 64}
      {len : ℕ} {issuer : Option ℕ} {d' : Device} :
      s.device.controlTransfer dirIn epId setupData buf len issuer = some (.kSuccess, d') →
      s.outstanding.length < 16 → NotOverrun d' s.outstanding →
      TransferStep s
        ⟨d', s.outstanding ++ [.issued s.device dirIn epId setupData buf len]⟩
  | refused {dirIn : Bool} {epId : EndpointID} {setupData : SetupData} {buf : BitVec 64}
      {len : ℕ} {issuer : Option ℕ} {err : Error} {d' : Device} :
      s.device.controlTransfer dirIn epId setupData buf len issuer = some (err, d') →
      err ≠ .kSuccess → TransferStep s { s with device := d' }
  | completed {m : Machine} {trb : TRB} {before after : List Transfer} {t : Transfer} :
      s.device.InMemory m → s.outstanding = before ++ t :: after →
      (Device.Succeeded trb → TransferEventTRB.pointer trb = t.completed) →
      TransferStep s ⟨(s.device.dispatch m trb).2, before ++ after⟩
  | other {d' : Device} : d'.setupStageMap = s.device.setupStageMap → RingsApart d' →
      s.device.Extends d' → NotOverrun d' s.outstanding → TransferStep s { s with device := d' }

/-- The runs of a device with an empty map. -/
def transferSystem : TransitionSystem TransferState where
  init s := s.device.setupStageMap = .empty 16 ∧ RingsApart s.device ∧ s.outstanding = []
  step := TransferStep

/-! ## What the map holds -/

/-- An entry goes from a slot of a ring to the one before it. -/
def StageEntry (d : Device) (key value : BitVec 64) : Prop :=
  ∃ i r k, d.transferRings i = some r ∧ r.pushed ≠ [] ∧ k < 31 ∧
    key = Ring.slotAddress r.base ((k + 1) % 31) ∧ value = Ring.slotAddress r.base k

/-- The transfer is on its ring, and the address of its completion is that of its second TRB. -/
def Transfer.OnRing (t : Transfer) (d : Device) : Prop :=
  ∃ r, d.transferRings t.index = some r ∧
    t.completed = Ring.slotAddress r.base ((t.start + 1) % 31) ∧ t.trbs <+: r.pushed.drop t.start

structure TransferInvariant (s : TransferState) : Prop where
  rings : RingsApart s.device
  stages : ∀ key value, s.device.setupStageMap.HasEntry key value → StageEntry s.device key value
  onRing : ∀ t ∈ s.outstanding, t.OnRing s.device
  notOverrun : NotOverrun s.device s.outstanding
  count : s.outstanding.length ≤ 16
  distinct : s.outstanding.Pairwise fun t t' => t.completed ≠ t'.completed
  noted : ∀ t ∈ s.outstanding,
    (∃ value, s.device.setupStageMap.HasEntry t.completed value) ↔ t.Noted

theorem length_controlTrbs (dirIn : Bool) (setupData : SetupData) (buf : BitVec 64) (len : ℕ) :
    2 ≤ (controlTrbs dirIn setupData buf len).length ∧
      (controlTrbs dirIn setupData buf len).length ≤ 3 := by
  unfold controlTrbs
  split <;> simp

/-- The first TRB of a control transfer is its setup stage. -/
theorem getElem?_controlTrbs_zero (dirIn : Bool) (setupData : SetupData) (buf : BitVec 64)
    (len : ℕ) :
    (controlTrbs dirIn setupData buf len)[0]? =
      some (SetupStageTRB.make setupData
        (if buf = 0#64 then SetupStageTRB.kNoDataStage
          else if dirIn then SetupStageTRB.kInDataStage else SetupStageTRB.kOutDataStage)) := by
  unfold controlTrbs
  by_cases hbuf : buf = 0#64
  · rw [if_neg (not_not.mpr hbuf), if_pos hbuf]
    rfl
  · rw [if_pos hbuf, if_neg hbuf]
    rfl

/-- The second one completes it. -/
theorem getElem?_controlTrbs_one (dirIn : Bool) (setupData : SetupData) (buf : BitVec 64)
    (len : ℕ) :
    (controlTrbs dirIn setupData buf len)[1]? =
      some (if buf = 0#64 then StatusStageTRB.make true true
        else DataStageTRB.make buf len dirIn) := by
  unfold controlTrbs
  by_cases hbuf : buf = 0#64
  · rw [if_neg (not_not.mpr hbuf), if_pos hbuf]
    rfl
  · rw [if_pos hbuf, if_neg hbuf]
    rfl

theorem Transfer.OnRing.length {t : Transfer} {r : LoggedRing}
    (h : t.trbs <+: r.pushed.drop t.start) : t.start + 2 ≤ r.pushed.length := by
  have hle := h.length_le
  have htwo : 2 ≤ t.trbs.length := (length_controlTrbs _ _ _ _).1
  rw [List.length_drop] at hle
  omega

/-- Slots of rings that are apart have the same address only when they are the same slot. -/
theorem RingsApart.slot_inj {d : Device} (h : RingsApart d) {i i' a a' : ℕ} {r r' : LoggedRing}
    (hr : d.transferRings i = some r) (hr' : d.transferRings i' = some r') (ha : a < 31)
    (ha' : a' < 31) (heq : Ring.slotAddress r.base a = Ring.slotAddress r'.base a') :
    i = i' ∧ r = r' ∧ a = a' := by
  obtain rfl := h.apart i i' r r' hr hr' a a' ha ha' heq
  obtain rfl := Option.some.inj (hr.symm.trans hr')
  refine ⟨rfl, rfl, ?_⟩
  rwa [Ring.slotAddress_inj _ (by unfold sizeofTRB; omega) (by unfold sizeofTRB; omega)] at heq

variable {d d' : Device} {s s' : TransferState} {t t' : Transfer}

/-- What holds of the rings in use holds as long as these stay where they are. -/
theorem StageEntry.extends {key value : BitVec 64} (h : StageEntry d key value)
    (hext : d.Extends d') : StageEntry d' key value := by
  obtain ⟨i, r, k, hr, hused, hk, hkey, hvalue⟩ := h
  obtain ⟨r', hr', hbase, hprefix⟩ := hext i r hr hused
  have hused' : r'.pushed ≠ [] := fun hempty => hused (List.prefix_nil.mp (hempty ▸ hprefix))
  exact ⟨i, r', k, hr', hused', hk, by rw [hbase, hkey], by rw [hbase, hvalue]⟩

theorem Transfer.OnRing.extends (h : t.OnRing d) (hext : d.Extends d') : t.OnRing d' := by
  obtain ⟨r, hr, hcompleted, htrbs⟩ := h
  have hlength := Transfer.OnRing.length htrbs
  have hused : r.pushed ≠ [] := by
    rintro hempty
    rw [hempty, List.length_nil] at hlength
    omega
  obtain ⟨r', hr', hbase, hprefix⟩ := hext _ r hr hused
  exact ⟨r', hr', by rw [hbase, hcompleted], htrbs.trans (List.IsPrefix.drop hprefix t.start)⟩

/-- A push moves no ring. -/
theorem RingsApart.pushed (h : RingsApart d) {i : ℕ} {new : List TRB}
    (hpush : d.RingPushed d' i new) : RingsApart d' := by
  obtain ⟨tr, tr', htr, hring, hbase, -, hwf⟩ := hpush.rings
  have hold : ∀ k r, d'.transferRings k = some r →
      ∃ r₀, d.transferRings k = some r₀ ∧ r₀.base = r.base := by
    intro k r hr
    rw [hring, Function.update_apply] at hr
    split at hr
    · next hk =>
      obtain rfl := Option.some.inj hr
      exact ⟨tr, by rw [hk, htr], hbase.symm⟩
    · exact ⟨r, hr, rfl⟩
  constructor
  · intro k r hr
    rw [hring, Function.update_apply] at hr
    split at hr
    · rw [← Option.some.inj hr]
      exact hwf
    · exact h.wellFormed k r hr
  · intro k k' r r' hr hr' a a' ha ha' heq
    obtain ⟨r₀, hr₀, hbase₀⟩ := hold k r hr
    obtain ⟨r₀', hr₀', hbase₀'⟩ := hold k' r' hr'
    rw [← hbase₀, ← hbase₀'] at heq
    exact h.apart k k' r₀ r₀' hr₀ hr₀' a a' ha ha' heq

/-! ## The call -/

/-- What a call that issues a transfer does to the device. -/
theorem controlTransfer_issued {dirIn : Bool} {epId : EndpointID} {setupData : SetupData}
    {buf : BitVec 64} {len : ℕ} {issuer : Option ℕ} (hrings : RingsApart d)
    (h : d.controlTransfer dirIn epId setupData buf len issuer = some (.kSuccess, d')) :
    let t := Transfer.issued d dirIn epId setupData buf len
    RingsApart d' ∧ d.RingPushed d' t.index t.trbs ∧ t.OnRing d' ∧
      ∃ value, StageEntry d' t.completed value ∧
        d'.setupStageMap = d.setupStageMap.put t.completed value := by
  rcases Device.controlTransfer_cases h with ⟨herr, _⟩ | ⟨-, tr, completed, setupTrbPosition, tr',
    waiters, htr, hstages, hd⟩
  · exact absurd rfl herr
  · obtain ⟨hwf, hbase, hpushed, hsetup, hcompleted⟩ :=
      Device.pushStages_cases (hrings.wellFormed _ tr htr) hstages
    intro t
    have hring : d'.transferRings =
        Function.update d.transferRings (epId.address - 1) (some tr') := by rw [hd]
    have hself : d'.transferRings (epId.address - 1) = some tr' := by
      rw [hring, Function.update_self]
    have hstart : t.start = tr.pushed.length :=
      congrArg List.length (Device.pushedTo_of_eq htr)
    have hkey : t.completed = completed := by
      rw [hcompleted]
      show (match d.transferRings (epId.address - 1) with | some r => _ | none => _) = _
      rw [htr]
    have hpush : d.RingPushed d' t.index t.trbs := ⟨tr, tr', htr, hring, hbase, hpushed, hwf⟩
    -- a ring with a setup stage on it is not a fresh one
    have hused : tr'.pushed ≠ [] := by
      rw [hpushed]
      intro hempty
      have htwo := (length_controlTrbs dirIn setupData buf len).1
      rw [(List.append_eq_nil_iff.mp hempty).2, List.length_nil] at htwo
      omega
    refine ⟨hrings.pushed hpush, hpush, ?_, setupTrbPosition, ?_, ?_⟩
    · refine ⟨tr', hself, ?_, ?_⟩
      · rw [hkey, hcompleted, hbase, hstart]
      · rw [hpushed, hstart, List.drop_left]
        exact List.prefix_rfl
    · refine ⟨epId.address - 1, tr', tr.pushed.length % 31, hself, hused,
        Nat.mod_lt _ (by decide), ?_, ?_⟩
      · rw [hkey, hcompleted, hbase, Nat.mod_add_mod]
      · rw [hsetup, hbase]
    · rw [hd, hkey]

/-- Transfers that are both still on a ring complete at different addresses. -/
theorem completed_ne (hrings : RingsApart d) (h : t.OnRing d) (h' : t'.OnRing d)
    (hbehind : t.index = t'.index → t.start + 2 ≤ t'.start)
    (hrecent : (d.pushedTo t.index).length ≤ t.start + 31) : t.completed ≠ t'.completed := by
  obtain ⟨r, hr, hcompleted, htrbs⟩ := h
  obtain ⟨r', hr', hcompleted', htrbs'⟩ := h'
  intro heq
  rw [hcompleted, hcompleted'] at heq
  obtain ⟨hindex, rfl, hslot⟩ := hrings.slot_inj hr hr' (Nat.mod_lt _ (by decide))
    (Nat.mod_lt _ (by decide)) heq
  have hlength := Transfer.OnRing.length htrbs'
  have := hbehind hindex
  rw [Device.pushedTo_of_eq hr] at hrecent
  exact CycleRing.mod_ne_of_lt (n := 31) (by omega) (by omega) hslot

/-- A transfer that is issued now completes at a place of its own. -/
theorem TransferInvariant.completed_ne_issued {dirIn : Bool} {epId : EndpointID}
    {setupData : SetupData} {buf : BitVec 64} {len : ℕ} (h : TransferInvariant s)
    (hrings : RingsApart d') (hext : s.device.Extends d')
    (hon : (Transfer.issued s.device dirIn epId setupData buf len).OnRing d')
    (ht : t ∈ s.outstanding) (hroom : (d'.pushedTo t.index).length ≤ t.start + 31) :
    t.completed ≠ (Transfer.issued s.device dirIn epId setupData buf len).completed := by
  have hold := h.onRing t ht
  refine completed_ne hrings (hold.extends hext) hon (fun hindex => ?_) hroom
  -- what is issued now comes behind all that is on the ring
  obtain ⟨r, hr, -, htrbs⟩ := hold
  have hlength := Transfer.OnRing.length htrbs
  have hstart : (Transfer.issued s.device dirIn epId setupData buf len).start =
      r.pushed.length := by
    rw [← Device.pushedTo_of_eq hr, hindex]
    rfl
  omega

theorem TransferInvariant.issued {dirIn : Bool} {epId : EndpointID} {setupData : SetupData}
    {buf : BitVec 64} {len : ℕ} {issuer : Option ℕ} (h : TransferInvariant s)
    (hcall : s.device.controlTransfer dirIn epId setupData buf len issuer = some (.kSuccess, d'))
    (hcount : s.outstanding.length < 16) (hroom : NotOverrun d' s.outstanding) :
    TransferInvariant ⟨d', s.outstanding ++ [.issued s.device dirIn epId setupData buf len]⟩ := by
  obtain ⟨hrings, hpush, hon, value, hentry, hmap⟩ := controlTransfer_issued h.rings hcall
  have hext := hpush.toExtends
  set t := Transfer.issued s.device dirIn epId setupData buf len with ht
  have hlast : ∀ t' ∈ s.outstanding, t'.completed ≠ t.completed := fun t' ht' =>
    h.completed_ne_issued hrings hext hon ht' (hroom t' ht')
  constructor
  case rings => exact hrings
  case stages =>
    intro key value' hkey
    rw [hmap] at hkey
    rcases ArrayMap.hasEntry_of_put hkey with hold | ⟨rfl, rfl⟩
    · exact (h.stages key value' hold).extends hext
    · exact hentry
  case onRing =>
    intro t' ht'
    rcases List.mem_append.mp ht' with hold | hnew
    · exact (h.onRing t' hold).extends hext
    · rw [List.mem_singleton.mp hnew]
      exact hon
  case notOverrun =>
    intro t' ht'
    rcases List.mem_append.mp ht' with hold | hnew
    · exact hroom t' hold
    · rw [List.mem_singleton.mp hnew]
      have hlength := (length_controlTrbs dirIn setupData buf len).2
      have htrbs : t.trbs = controlTrbs dirIn setupData buf len := rfl
      have hstart : (s.device.pushedTo t.index).length = t.start := rfl
      rw [← htrbs] at hlength
      rw [hpush.pushed, List.length_append]
      omega
  case count =>
    rw [List.length_append, List.length_singleton]
    exact hcount
  case distinct =>
    rw [List.pairwise_append]
    refine ⟨h.distinct, List.pairwise_singleton _ _, fun t' ht' t'' ht'' => ?_⟩
    rw [List.mem_singleton.mp ht'']
    exact hlast t' ht'
  case noted =>
    intro t' ht'
    rw [hmap]
    rcases List.mem_append.mp ht' with hold | hnew
    · rw [← h.noted t' hold]
      constructor
      · rintro ⟨value', hkey⟩
        rcases ArrayMap.hasEntry_of_put hkey with hkey' | ⟨heq, -⟩
        · exact ⟨value', hkey'⟩
        · exact absurd heq (hlast t' hold)
      · rintro ⟨value', hkey⟩
        exact ⟨value', ArrayMap.hasEntry_put hkey⟩
    · rw [List.mem_singleton.mp hnew]
      show _ ↔ s.device.setupStageMap.HasRoom ∨ _
      by_cases hfree : s.device.setupStageMap.HasRoom
      · exact iff_of_true ⟨value, ArrayMap.hasEntry_put_of_room hfree⟩ (.inl hfree)
      · rw [ArrayMap.put_of_full hfree]
        exact (or_iff_right hfree).symm

/-- Nothing that keeps the map and the rings in use changes what the transfers find. -/
theorem TransferInvariant.other (h : TransferInvariant s)
    (hmap : d'.setupStageMap = s.device.setupStageMap) (hrings : RingsApart d')
    (hext : s.device.Extends d') (hroom : NotOverrun d' s.outstanding) :
    TransferInvariant { s with device := d' } where
  rings := hrings
  stages := fun key value hentry => by
    rw [hmap] at hentry
    exact (h.stages key value hentry).extends hext
  onRing := fun t ht => (h.onRing t ht).extends hext
  notOverrun := hroom
  count := h.count
  distinct := h.distinct
  noted := fun t ht => by
    rw [hmap]
    exact h.noted t ht

/-- A completion deletes the entry of its own transfer, if any. -/
theorem TransferInvariant.completed {m : Machine} {trb : TRB} {before after : List Transfer}
    (h : TransferInvariant s) (hsplit : s.outstanding = before ++ t :: after)
    (hpointer : Device.Succeeded trb → TransferEventTRB.pointer trb = t.completed) :
    TransferInvariant ⟨(s.device.dispatch m trb).2, before ++ after⟩ := by
  -- the transfers that stay are among those before
  have hsub : (before ++ after).Sublist s.outstanding := by
    rw [hsplit]
    exact List.Sublist.append_left (List.sublist_cons_self t after) before
  have hmem : ∀ t' ∈ before ++ after, t' ∈ s.outstanding := fun t' ht' => hsub.subset ht'
  have hkept : TransferInvariant ⟨s.device, before ++ after⟩ :=
    ⟨h.rings, h.stages, fun t' ht' => h.onRing t' (hmem t' ht'),
      fun t' ht' => h.notOverrun t' (hmem t' ht'), le_trans hsub.length_le h.count,
      h.distinct.sublist hsub,
      fun t' ht' => h.noted t' (hmem t' ht')⟩
  by_cases hcode : Device.Succeeded trb
  · rcases Device.dispatch_device m s.device trb with hsame | hdeleted
    · rw [hsame]
      exact hkept
    · rw [hdeleted, hpointer hcode]
      -- no other transfer has its entry under the same key
      have hother : ∀ t' ∈ before ++ after, t'.completed ≠ t.completed := by
        intro t' ht' heq
        have hpairs := h.distinct
        rw [hsplit, List.pairwise_append, List.pairwise_cons] at hpairs
        rcases List.mem_append.mp ht' with hbefore | hafter
        · exact hpairs.2.2 t' hbefore t List.mem_cons_self heq
        · exact hpairs.2.1.1 t' hafter heq.symm
      constructor
      case rings => exact ⟨hkept.rings.wellFormed, hkept.rings.apart⟩
      case stages =>
        intro key value hentry
        exact hkept.stages key value (ArrayMap.hasEntry_of_delete hentry)
      case onRing => exact hkept.onRing
      case notOverrun => exact hkept.notOverrun
      case count => exact hkept.count
      case distinct => exact hkept.distinct
      case noted =>
        intro t' ht'
        rw [← hkept.noted t' ht']
        constructor
        · rintro ⟨value, hentry⟩
          exact ⟨value, ArrayMap.hasEntry_of_delete hentry⟩
        · rintro ⟨value, hentry⟩
          exact ⟨value, ArrayMap.hasEntry_delete_of_ne (hother t' ht') hentry⟩
  · rw [Device.dispatch_failed hcode]
    exact hkept

theorem transferInvariant_of_step (h : TransferInvariant s) (hstep : TransferStep s s') :
    TransferInvariant s' := by
  cases hstep with
  | issued hcall hcount hroom => exact h.issued hcall hcount hroom
  | refused hcall herr =>
    rcases Device.controlTransfer_cases hcall with ⟨_, waiters, rfl⟩ | ⟨hsuccess, _⟩
    · exact h.other rfl ⟨h.rings.wellFormed, h.rings.apart⟩ (Device.extends_of_eq rfl)
        h.notOverrun
    · exact absurd hsuccess herr
  | completed _ hsplit hpointer => exact h.completed hsplit hpointer
  | other hmap hrings hext hroom => exact h.other hmap hrings hext hroom

theorem transferInvariant_of_reachable (h : transferSystem.Reachable s) : TransferInvariant s := by
  apply h.invariant (P := TransferInvariant)
  · rintro s ⟨hmap, hrings, hnone⟩
    have hempty : ∀ {P : Transfer → Prop}, ∀ t ∈ s.outstanding, P t := by
      intro P t ht
      rw [hnone] at ht
      exact absurd ht List.not_mem_nil
    refine ⟨hrings, fun key value hentry => ?_, hempty, hempty, ?_, ?_, hempty⟩
    · rw [hmap] at hentry
      exact absurd hentry (ArrayMap.not_hasEntry_empty 16)
    · rw [hnone]
      exact Nat.zero_le 16
    · rw [hnone]
      exact List.Pairwise.nil
  · intro s s' _ ih hstep
    exact transferInvariant_of_step ih hstep

end TommyOS.Usb
