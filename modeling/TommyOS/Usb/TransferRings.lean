import TommyOS.Lib.CycleRing
import TommyOS.Usb.Device

/-!
# The transfers of a device

What the functions of a device push to its rings, with the places they keep of it.
-/

namespace TommyOS.Usb

open CycleRing

/-! ## TRBs -/

namespace SetupStageTRB

variable (setupData : SetupData) (transferType : BitVec 2) (cycle : Bool)

@[simp] theorem trbType_make : (make setupData transferType).trbType = type := by
  show (0#14 ++ transferType ++ type ++ 0#3 ++ 1#1 ++ 0#6).extractLsb' 10 6 = _
  rw [BitVec.extractLsb'_append_eq_of_le (by decide),
    BitVec.extractLsb'_append_eq_of_le (by decide), BitVec.extractLsb'_append_eq_of_le (by decide)]
  exact BitVec.extractLsb'_append_eq_right

/-- The request that a completed setup stage is read back as. -/
theorem request_make :
    (SetupStageTRB.setupData ((make setupData transferType).stamped cycle)).request =
      setupData.request := by
  unfold SetupStageTRB.setupData
  simp only [TRB.stamped_of_ne _ _ (show (0 : Fin 4) ≠ 3 by decide)]
  show (setupData.value ++ setupData.request ++ setupData.requestType).extractLsb' 8 8 = _
  rw [BitVec.extractLsb'_append_eq_of_le (by decide)]
  exact BitVec.extractLsb'_append_eq_right

/-- A completed setup stage is read back as the request it was made for. -/
theorem setupData_make :
    SetupStageTRB.setupData ((make setupData transferType).stamped cycle) = setupData := by
  unfold SetupStageTRB.setupData
  simp only [TRB.stamped_of_ne _ _ (show (0 : Fin 4) ≠ 3 by decide),
    TRB.stamped_of_ne _ _ (show (1 : Fin 4) ≠ 3 by decide)]
  have hword0 : make setupData transferType 0 =
      setupData.value ++ setupData.request ++ setupData.requestType := rfl
  have hword1 : make setupData transferType 1 = setupData.length ++ setupData.index := rfl
  have hvalue : (setupData.value ++ setupData.request ++ setupData.requestType).extractLsb' 16 16
      = setupData.value := by
    rw [BitVec.extractLsb'_append_eq_of_le (by decide)]
    exact BitVec.extractLsb'_append_eq_left
  have hrequest : (setupData.value ++ setupData.request ++ setupData.requestType).extractLsb' 8 8
      = setupData.request := by
    rw [BitVec.extractLsb'_append_eq_of_le (by decide)]
    exact BitVec.extractLsb'_append_eq_right
  rw [hword0, hword1, hvalue, hrequest, BitVec.extractLsb'_append_eq_right,
    BitVec.extractLsb'_append_eq_right, BitVec.extractLsb'_append_eq_left]

end SetupStageTRB

theorem stageControl_type (type : BitVec 6) (direction ioc : Bool) :
    (stageControl type direction ioc).extractLsb' 10 6 = type := by
  unfold stageControl
  rw [BitVec.extractLsb'_append_eq_of_le (by decide),
    BitVec.extractLsb'_append_eq_of_le (by decide), BitVec.extractLsb'_append_eq_of_le (by decide)]
  exact BitVec.extractLsb'_append_eq_right

@[simp] theorem DataStageTRB.trbType_make (buf : BitVec 64) (len : ℕ) (dirIn : Bool) :
    (make buf len dirIn).trbType = type :=
  stageControl_type _ _ _

/-- The buffer that is read back of a data stage. -/
theorem DataStageTRB.parameter_make (buf : BitVec 64) (len : ℕ) (dirIn cycle : Bool) :
    ((make buf len dirIn).stamped cycle).parameter = buf := by
  unfold TRB.parameter
  rw [TRB.stamped_of_ne _ _ (by decide), TRB.stamped_of_ne _ _ (by decide)]
  show (buf >>> 32).setWidth 32 ++ buf.setWidth 32 = buf
  apply BitVec.eq_of_getLsbD_eq
  intro j hj
  rw [BitVec.getLsbD_append]
  by_cases hlow : j < 32
  · simp [hlow]
  · simp [hlow, show j - 32 < 32 by omega, show 32 + (j - 32) = j by omega]

/-- The length that is read back has the 17 bits of its field. -/
theorem DataStageTRB.trbTransferLength_make (buf : BitVec 64) (len : ℕ) (dirIn cycle : Bool) :
    ((make buf len dirIn).stamped cycle).trbTransferLength = BitVec.ofNat 17 len := by
  unfold TRB.trbTransferLength
  rw [TRB.stamped_of_ne _ _ (by decide)]
  exact BitVec.extractLsb'_append_eq_right

/-- The difference of a length and a residual is the number it should be. -/
theorem TransferEventTRB.transferLength_eq (trb issuer : TRB) :
    transferLength trb issuer =
      (issuer.trbTransferLength.toNat : ℤ) - (TransferEventTRB.trbTransferLength trb).toNat := by
  have hlen := issuer.trbTransferLength.isLt
  have hres := (TransferEventTRB.trbTransferLength trb).isLt
  unfold transferLength
  rw [BitVec.toInt_sub, BitVec.toInt_eq_toNat_of_lt, BitVec.toInt_eq_toNat_of_lt,
    BitVec.toNat_setWidth, BitVec.toNat_setWidth, Nat.mod_eq_of_lt (by omega),
    Nat.mod_eq_of_lt (by omega)]
  · apply Int.bmod_eq_of_le <;> omega
  · rw [BitVec.toNat_setWidth]
    omega
  · rw [BitVec.toNat_setWidth]
    omega

@[simp] theorem StatusStageTRB.trbType_make (direction ioc : Bool) :
    (make direction ioc).trbType = type :=
  stageControl_type _ _ _

@[simp] theorem NormalTRB.trbType_make (buf : BitVec 64) (len : ℕ) :
    (make buf len).trbType = type := by
  show (0#16 ++ type ++ 0#4 ++ 1#1 ++ 0#2 ++ 1#1 ++ 0#2).extractLsb' 10 6 = type
  decide

/-! ## Rings -/

theorem Ring.push_snd (r : Ring) (data : TRB) :
    (r.push data).2 =
      if r.writeIndex + 1 = r.bufSize - 1 then
        { r with
          buf := Function.update (Function.update r.buf r.writeIndex (data.stamped r.cycleBit))
            (r.writeIndex + 1) ((LinkTRB.toSegment r.base).stamped r.cycleBit)
          writeIndex := 0
          cycleBit := !r.cycleBit }
      else
        { r with
          buf := Function.update r.buf r.writeIndex (data.stamped r.cycleBit)
          writeIndex := r.writeIndex + 1 } := by
  unfold push
  simp only [copyToLast_eq]
  split
  · rfl
  · rfl

namespace LoggedRing

/-- A ring of 32 slots, of which the last one is the link: the last 31 TRBs are in the others. -/
structure WellFormed (r : LoggedRing) : Prop where
  bufSize : r.bufSize = 32
  writeIndex : r.writeIndex = r.pushed.length % 31
  recent : ∀ j (hj : j < r.pushed.length), r.pushed.length ≤ j + 31 →
    ∃ cycle, r.buf (j % 31) = r.pushed[j].stamped cycle

theorem wellFormed_initializeWith (base : BitVec 64) : (initializeWith base 32).WellFormed where
  bufSize := rfl
  writeIndex := rfl
  recent := fun j hj => absurd hj (Nat.not_lt_zero j)

variable {r r' : LoggedRing} {data : TRB} {p : BitVec 64}

theorem push_cases (h : r.push data = some (p, r')) :
    r.base ≠ 0#64 ∧ p = (r.toRing.push data).1 ∧
      r' = ⟨(r.toRing.push data).2, r.pushed ++ [data]⟩ := by
  unfold push at h
  by_cases hbase : r.base = 0#64
  · rw [if_pos hbase] at h
    exact absurd h (by simp)
  · rw [if_neg hbase, Option.some.injEq, Prod.mk.injEq] at h
    exact ⟨hbase, h.1.symm, h.2.symm⟩

theorem push_base (hpush : r.push data = some (p, r')) : r'.base = r.base := by
  obtain ⟨-, -, rfl⟩ := push_cases hpush
  show (r.toRing.push data).2.base = _
  rw [Ring.push_snd]
  split
  · rfl
  · rfl

theorem push_pushed (hpush : r.push data = some (p, r')) : r'.pushed = r.pushed ++ [data] := by
  obtain ⟨-, -, rfl⟩ := push_cases hpush
  rfl

/-- The TRB goes to the slot behind the last one. -/
theorem WellFormed.push_pointer (h : r.WellFormed) (hpush : r.push data = some (p, r')) :
    p = Ring.slotAddress r.base (r.pushed.length % 31) := by
  obtain ⟨-, rfl, -⟩ := push_cases hpush
  rw [← h.writeIndex]
  unfold Ring.push
  simp only
  split
  · rfl
  · rfl

theorem WellFormed.push (h : r.WellFormed) (hpush : r.push data = some (p, r')) :
    r'.WellFormed := by
  obtain ⟨-, -, rfl⟩ := push_cases hpush
  have hindex := h.writeIndex
  have hmod := Nat.mod_lt r.pushed.length (show 0 < 31 by decide)
  have hlength : (r.pushed ++ [data]).length = r.pushed.length + 1 := List.length_append
  -- whether or not the link is written too
  have hslot : ∀ i, i < 31 → (r.toRing.push data).2.buf i =
      if i = r.pushed.length % 31 then data.stamped r.cycleBit else r.buf i := by
    intro i hi
    rw [Ring.push_snd, h.bufSize, hindex]
    split
    · show Function.update (Function.update _ _ _) _ _ i = _
      rw [Function.update_of_ne (by omega), Function.update_apply]
    · exact Function.update_apply _ _ _ _
  constructor
  · show (r.toRing.push data).2.bufSize = 32
    rw [Ring.push_snd]
    split
    · exact h.bufSize
    · exact h.bufSize
  · show (r.toRing.push data).2.writeIndex = (r.pushed ++ [data]).length % 31
    rw [Ring.push_snd, h.bufSize, hindex, hlength]
    split
    · show 0 = _
      omega
    · show r.pushed.length % 31 + 1 = _
      omega
  · intro j hj hrecent
    rw [hlength] at hj hrecent
    show ∃ cycle, (r.toRing.push data).2.buf (j % 31) = (r.pushed ++ [data])[j].stamped cycle
    rw [hslot _ (Nat.mod_lt j (by decide))]
    by_cases hlast : j = r.pushed.length
    · subst hlast
      rw [if_pos rfl, List.getElem_concat_length rfl]
      exact ⟨r.cycleBit, rfl⟩
    · have hlt : j < r.pushed.length := by omega
      rw [if_neg (mod_ne_of_lt hlt (by omega)), List.getElem_append_left hlt]
      exact h.recent j hlt (by omega)

end LoggedRing

/-! ## Transfers -/

@[simp] theorem address_kDefaultControlPipeID : kDefaultControlPipeID.address = 1 := rfl

@[simp] theorem number_kDefaultControlPipeID : kDefaultControlPipeID.number = 0 := rfl

/-- The TRBs of a control transfer. -/
def controlTrbs (dirIn : Bool) (setupData : SetupData) (buf : BitVec 64) (len : ℕ) : List TRB :=
  if buf ≠ 0#64 then
    [SetupStageTRB.make setupData
        (if dirIn then SetupStageTRB.kInDataStage else SetupStageTRB.kOutDataStage),
      DataStageTRB.make buf len dirIn, StatusStageTRB.make (!dirIn) false]
  else
    [SetupStageTRB.make setupData SetupStageTRB.kNoDataStage, StatusStageTRB.make true true]

theorem trbType_of_mem_controlTrbs {dirIn : Bool} {setupData : SetupData} {buf : BitVec 64}
    {len : ℕ} {trb : TRB} (h : trb ∈ controlTrbs dirIn setupData buf len) :
    trb.trbType ≠ NormalTRB.type := by
  have hall : ∀ t ∈ controlTrbs dirIn setupData buf len,
      t.trbType = SetupStageTRB.type ∨ t.trbType = DataStageTRB.type ∨
        t.trbType = StatusStageTRB.type := by
    unfold controlTrbs
    split <;> simp
  rcases hall trb h with htype | htype | htype
  · rw [htype]
    decide
  · rw [htype]
    decide
  · rw [htype]
    decide

namespace Device

variable {d d' : Device} {tr tr' : LoggedRing} {err : Error} {dirIn : Bool}
  {setupData : SetupData} {buf : BitVec 64} {len : ℕ} {issuer : Option ℕ}

theorem pushStages_pushed {completed setupTrbPosition : BitVec 64}
    (h : pushStages tr dirIn setupData buf len = some (completed, setupTrbPosition, tr')) :
    tr'.pushed = tr.pushed ++ controlTrbs dirIn setupData buf len := by
  unfold pushStages at h
  unfold controlTrbs
  by_cases hbuf : buf ≠ 0#64
  · rw [if_pos hbuf] at h ⊢
    simp only [Option.bind_eq_bind, Option.bind_eq_some_iff, Option.some.injEq,
      Prod.mk.injEq] at h
    obtain ⟨⟨p₁, tr₁⟩, h₁, ⟨p₂, tr₂⟩, h₂, ⟨p₃, tr₃⟩, h₃, -, -, rfl⟩ := h
    rw [LoggedRing.push_pushed h₃, LoggedRing.push_pushed h₂, LoggedRing.push_pushed h₁,
      List.append_assoc, List.append_assoc]
    rfl
  · rw [if_neg hbuf] at h ⊢
    simp only [Option.bind_eq_bind, Option.bind_eq_some_iff, Option.some.injEq,
      Prod.mk.injEq] at h
    obtain ⟨⟨p₁, tr₁⟩, h₁, ⟨p₂, tr₂⟩, h₂, -, -, rfl⟩ := h
    rw [LoggedRing.push_pushed h₂, LoggedRing.push_pushed h₁, List.append_assoc]
    rfl

/-- The TRBs of a control transfer come one behind the other, its completion second. -/
theorem pushStages_cases {completed setupTrbPosition : BitVec 64} (hwf : tr.WellFormed)
    (h : pushStages tr dirIn setupData buf len = some (completed, setupTrbPosition, tr')) :
    tr'.WellFormed ∧ tr'.base = tr.base ∧
      tr'.pushed = tr.pushed ++ controlTrbs dirIn setupData buf len ∧
      setupTrbPosition = Ring.slotAddress tr.base (tr.pushed.length % 31) ∧
      completed = Ring.slotAddress tr.base ((tr.pushed.length + 1) % 31) := by
  have hpushed := pushStages_pushed h
  unfold pushStages at h
  -- setup, data and status, or without a buffer setup and status
  by_cases hbuf : buf ≠ 0#64
  · rw [if_pos hbuf] at h
    simp only [Option.bind_eq_bind, Option.bind_eq_some_iff] at h
    obtain ⟨⟨p₁, tr₁⟩, h₁, ⟨p₂, tr₂⟩, h₂, ⟨p₃, tr₃⟩, h₃, h⟩ := h
    simp only [Option.some.injEq, Prod.mk.injEq] at h
    obtain ⟨rfl, rfl, rfl⟩ := h
    have hwf₁ := hwf.push h₁
    have hwf₂ := hwf₁.push h₂
    refine ⟨hwf₂.push h₃, ?_, hpushed, hwf.push_pointer h₁, ?_⟩
    · rw [LoggedRing.push_base h₃, LoggedRing.push_base h₂, LoggedRing.push_base h₁]
    · rw [hwf₁.push_pointer h₂, LoggedRing.push_base h₁, LoggedRing.push_pushed h₁,
        List.length_append]
      rfl
  · rw [if_neg hbuf] at h
    simp only [Option.bind_eq_bind, Option.bind_eq_some_iff] at h
    obtain ⟨⟨p₁, tr₁⟩, h₁, ⟨p₂, tr₂⟩, h₂, h⟩ := h
    simp only [Option.some.injEq, Prod.mk.injEq] at h
    obtain ⟨rfl, rfl, rfl⟩ := h
    have hwf₁ := hwf.push h₁
    refine ⟨hwf₁.push h₂, ?_, hpushed, hwf.push_pointer h₁, ?_⟩
    · rw [LoggedRing.push_base h₂, LoggedRing.push_base h₁]
    · rw [hwf₁.push_pointer h₂, LoggedRing.push_base h₁, LoggedRing.push_pushed h₁,
        List.length_append]
      rfl

theorem putWaiter_eq (d : Device) (setupData : SetupData) (issuer : Option ℕ) :
    ∃ waiters, d.putWaiter setupData issuer = { d with eventWaiters := waiters } := by
  unfold putWaiter
  split
  · exact ⟨_, rfl⟩
  · exact ⟨d.eventWaiters, rfl⟩

/-- The two ways a control transfer ends, once its issuer waits: refused, or on the ring of its
endpoint. -/
theorem controlTransfer_putWaiter {epId : EndpointID}
    (h : controlTransfer dirIn d epId setupData buf len issuer = some (err, d')) :
    (err ≠ .kSuccess ∧ d' = d.putWaiter setupData issuer) ∨
    (err = .kSuccess ∧ ∃ tr completed setupTrbPosition tr',
      d.transferRings (epId.address - 1) = some tr ∧
      pushStages tr dirIn setupData buf len = some (completed, setupTrbPosition, tr') ∧
      d' =
        { d.putWaiter setupData issuer with
          transferRings := Function.update d.transferRings (epId.address - 1) (some tr')
          setupStageMap := d.setupStageMap.put completed setupTrbPosition }) := by
  obtain ⟨waiters, hwaiters⟩ := d.putWaiter_eq setupData issuer
  unfold controlTransfer transferRing setTransferRing at h
  rw [hwaiters] at h ⊢
  simp only [Option.bind_eq_bind] at h
  -- an unknown endpoint, one without a ring, and one with it
  split at h
  · obtain ⟨rfl, rfl⟩ := Prod.mk.injEq .. ▸ Option.some.inj h
    exact .inl ⟨by decide, rfl⟩
  · rw [Option.bind_eq_some_iff] at h
    obtain ⟨ring, hring, h⟩ := h
    split at hring
    · obtain rfl := Option.some.inj hring
      split at h
      · obtain ⟨rfl, rfl⟩ := Prod.mk.injEq .. ▸ Option.some.inj h
        exact .inl ⟨by decide, rfl⟩
      · next tr htr =>
        rw [Option.bind_eq_some_iff] at h
        obtain ⟨⟨completed, setupTrbPosition, tr'⟩, hstages, h⟩ := h
        obtain ⟨rfl, rfl⟩ := Prod.mk.injEq .. ▸ Option.some.inj h
        exact .inr ⟨rfl, tr, completed, setupTrbPosition, tr', htr, hstages, rfl⟩
    · exact absurd hring (by simp)

/-- The same, for any issuer. -/
theorem controlTransfer_cases {epId : EndpointID}
    (h : controlTransfer dirIn d epId setupData buf len issuer = some (err, d')) :
    (err ≠ .kSuccess ∧ ∃ waiters, d' = { d with eventWaiters := waiters }) ∨
    (err = .kSuccess ∧ ∃ tr completed setupTrbPosition tr' waiters,
      d.transferRings (epId.address - 1) = some tr ∧
      pushStages tr dirIn setupData buf len = some (completed, setupTrbPosition, tr') ∧
      d' =
        { d with
          eventWaiters := waiters
          transferRings := Function.update d.transferRings (epId.address - 1) (some tr')
          setupStageMap := d.setupStageMap.put completed setupTrbPosition }) := by
  have hends := controlTransfer_putWaiter h
  obtain ⟨waiters, hwaiters⟩ := d.putWaiter_eq setupData issuer
  rw [hwaiters] at hends
  rcases hends with ⟨herr, hd⟩ | ⟨herr, tr, completed, setupTrbPosition, tr', htr, hstages, hd⟩
  · exact .inl ⟨herr, waiters, hd⟩
  · exact .inr ⟨herr, tr, completed, setupTrbPosition, tr', waiters, htr, hstages, hd⟩

/-- A control transfer on the default pipe. -/
theorem controlTransfer_default (hring : d.transferRings 0 = some tr)
    (h : controlTransfer dirIn d kDefaultControlPipeID setupData buf len issuer =
      some (err, d')) :
    err = .kSuccess ∧ ∃ completed setupTrbPosition tr' waiters,
      pushStages tr dirIn setupData buf len = some (completed, setupTrbPosition, tr') ∧
      d' =
        { d with
          eventWaiters := waiters
          transferRings := Function.update d.transferRings 0 (some tr')
          setupStageMap := d.setupStageMap.put completed setupTrbPosition } := by
  obtain ⟨waiters, hwaiters⟩ := d.putWaiter_eq setupData issuer
  unfold controlTransfer transferRing setTransferRing at h
  rw [hwaiters] at h
  simp only [address_kDefaultControlPipeID, number_kDefaultControlPipeID, hring,
    Option.bind_eq_bind, Nat.sub_self] at h
  rw [if_neg (by decide), if_pos (by decide)] at h
  simp only [Option.bind_some, Option.bind_eq_some_iff, Option.some.injEq, Prod.mk.injEq] at h
  obtain ⟨⟨completed, setupTrbPosition, tr'⟩, hstages, herr, hd⟩ := h
  exact ⟨herr.symm, completed, setupTrbPosition, tr', waiters, hstages, hd.symm⟩

theorem interruptIn_cases {epId : EndpointID} (h : d.interruptIn epId buf len = some (err, d')) :
    d' = d ∨ ∃ tr p tr', 1 ≤ epId.address ∧ d.transferRings (epId.address - 1) = some tr ∧
      tr.push (NormalTRB.make buf len) = some (p, tr') ∧
      d' = { d with
        transferRings := Function.update d.transferRings (epId.address - 1) (some tr') } := by
  unfold interruptIn transferRing at h
  simp only [Option.bind_eq_bind, Option.bind_eq_some_iff] at h
  obtain ⟨ring, hring, h⟩ := h
  split at hring
  · next hindex =>
    obtain rfl := Option.some.inj hring
    split at h
    · exact .inl (congrArg Prod.snd (Option.some.inj h)).symm
    · next tr htr =>
      simp only [Option.bind_eq_some_iff] at h
      obtain ⟨⟨p, tr'⟩, hpush, h⟩ := h
      exact .inr ⟨tr, p, tr', hindex.1, htr, hpush, (congrArg Prod.snd (Option.some.inj h)).symm⟩
  · exact absurd hring (by simp)

end Device

end TommyOS.Usb
