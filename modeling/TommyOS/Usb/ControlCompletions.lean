import TommyOS.Usb.ControlTransfers

/-!
# Completions that find their request

A completion finds its request exactly when its entry had a slot of `setup_stage_map_` when the
transfer was issued. A transfer that fails never gives its slot back, so behind sixteen of them
the next completion is answered with an error.
-/

namespace TommyOS.Usb

variable {d : Device} {s : TransferState} {t : Transfer}

/-! ## Completions -/

/-- The TRB that completes a transfer, and its setup stage, are still in their slots. -/
theorem TransferInvariant.trbAt {m : Machine} (h : TransferInvariant s)
    (hmem : s.device.InMemory m) (ht : t ∈ s.outstanding) :
    ∃ r cycle cycle', s.device.transferRings t.index = some r ∧
      t.completed = Ring.slotAddress r.base ((t.start + 1) % 31) ∧
      m.trbAt (Ring.slotAddress r.base (t.start % 31)) =
        (SetupStageTRB.make t.setupData
          (if t.buf = 0#64 then SetupStageTRB.kNoDataStage
            else if t.dirIn then SetupStageTRB.kInDataStage
            else SetupStageTRB.kOutDataStage)).stamped cycle ∧
      m.trbAt t.completed =
        (if t.buf = 0#64 then StatusStageTRB.make true true
          else DataStageTRB.make t.buf t.len t.dirIn).stamped cycle' := by
  obtain ⟨r, hr, hcompleted, htrbs⟩ := h.onRing t ht
  have hlength := Transfer.OnRing.length htrbs
  have hrecent := h.notOverrun t ht
  rw [Device.pushedTo_of_eq hr] at hrecent
  have hwf := h.rings.wellFormed _ r hr
  obtain ⟨cycle, hsetup⟩ := Device.trbAt_pushed hmem hr hwf (k := t.start) (by omega) hrecent
  obtain ⟨cycle', hsecond⟩ :=
    Device.trbAt_pushed hmem hr hwf (k := t.start + 1) (by omega) (by omega)
  -- the first two TRBs of the transfer are the setup stage and the one that completes it
  have hat : ∀ j (hj : j < 2), t.trbs[j]? = some (r.pushed[t.start + j]) := by
    intro j hj
    obtain ⟨rest, hrest⟩ := htrbs
    have htwo : 2 ≤ t.trbs.length := (length_controlTrbs _ _ _ _).1
    have hdrop : (r.pushed.drop t.start)[j]? = some (r.pushed[t.start + j]) := by
      rw [List.getElem?_drop, List.getElem?_eq_getElem (by omega)]
    rw [← hdrop, ← hrest, List.getElem?_append_left (by omega)]
  have h0 := (getElem?_controlTrbs_zero ..).symm.trans (hat 0 (by decide))
  have h1 := (getElem?_controlTrbs_one ..).symm.trans (hat 1 (by decide))
  exact ⟨r, cycle, cycle', hr, hcompleted,
    hsetup.trans (congrArg (TRB.stamped · cycle) (Option.some.inj h0).symm),
    (congrArg m.trbAt hcompleted).trans
      (hsecond.trans (congrArg (TRB.stamped · cycle') (Option.some.inj h1).symm))⟩

section
variable {m : Machine} {trb : TRB}

/-- The length that the handler of a completion is given. -/
def Transfer.readLength (t : Transfer) (trb : TRB) : ℤ :=
  if t.buf = 0#64 then 0
  else ((t.len % 2 ^ 17 : ℕ) : ℤ) - (TransferEventTRB.trbTransferLength trb).toNat

/-- The completion of a transfer with an entry. -/
theorem TransferInvariant.dispatch_noted (h : TransferInvariant s)
    (hmem : s.device.InMemory m) (ht : t ∈ s.outstanding) (hcode : Device.Succeeded trb)
    (hpointer : TransferEventTRB.pointer trb = t.completed) (hnoted : t.Noted) :
    (s.device.dispatch m trb).1 = .onControlCompleted t.setupData t.buf (t.readLength trb) := by
  obtain ⟨r, cycle, cycle', hr, hcompleted, hsetup, hissuer⟩ := h.trbAt hmem ht
  obtain ⟨value, hentry⟩ := (h.noted t ht).mpr hnoted
  have hget : ∃ value, s.device.setupStageMap.get t.completed = some value := by
    apply Option.ne_none_iff_exists'.mp
    intro hnone
    exact ArrayMap.get_eq_none_iff.mp hnone value hentry
  obtain ⟨setupStage, hget⟩ := hget
  -- whatever entry is found, its key tells where the setup stage is
  obtain ⟨i, r', k, hr', -, hk, hkey, hvalue⟩ :=
    h.stages _ _ (ArrayMap.hasEntry_of_get hget)
  rw [hcompleted] at hkey
  obtain ⟨-, rfl, hslot⟩ := h.rings.slot_inj hr hr' (Nat.mod_lt _ (by decide))
    (Nat.mod_lt _ (by decide)) hkey
  have hplace : setupStage = Ring.slotAddress r.base (t.start % 31) := by
    rw [hvalue]
    congr 1
    omega
  have hgood : ¬ (TransferEventTRB.completionCode trb ≠ 1#8 ∧
      TransferEventTRB.completionCode trb ≠ 13#8) := by
    rintro ⟨h1, h13⟩
    exact hcode.elim h1 h13
  unfold Device.dispatch
  simp only
  rw [if_neg hgood, hpointer, hget, hissuer]
  simp only
  rw [hplace, hsetup, SetupStageTRB.setupData_make]
  unfold Transfer.readLength
  by_cases hbuf : t.buf = 0#64
  · simp only [if_pos hbuf, TRB.trbType_stamped, StatusStageTRB.trbType_make]
    rw [if_neg (by decide), if_neg (by decide), hbuf]
    rfl
  · simp only [if_neg hbuf, TRB.trbType_stamped, DataStageTRB.trbType_make]
    rw [if_neg (by decide), if_pos trivial, DataStageTRB.parameter_make,
      TransferEventTRB.transferLength_eq, DataStageTRB.trbTransferLength_make,
      BitVec.toNat_ofNat]

/-- The completion of a transfer whose entry was dropped. -/
theorem TransferInvariant.dispatch_dropped (h : TransferInvariant s)
    (hmem : s.device.InMemory m) (ht : t ∈ s.outstanding) (hcode : Device.Succeeded trb)
    (hpointer : TransferEventTRB.pointer trb = t.completed) (hdropped : ¬ t.Noted) :
    s.device.dispatch m trb = (.error .kNoCorrespondingSetupStage, s.device) := by
  obtain ⟨r, cycle, cycle', hr, hcompleted, hsetup, hissuer⟩ := h.trbAt hmem ht
  have hget : s.device.setupStageMap.get t.completed = none := by
    rw [ArrayMap.get_eq_none_iff]
    intro value hentry
    exact hdropped ((h.noted t ht).mp ⟨value, hentry⟩)
  have hgood : ¬ (TransferEventTRB.completionCode trb ≠ 1#8 ∧
      TransferEventTRB.completionCode trb ≠ 13#8) := by
    rintro ⟨h1, h13⟩
    exact hcode.elim h1 h13
  have htype : (m.trbAt t.completed).trbType ≠ NormalTRB.type := by
    rw [hissuer, TRB.trbType_stamped]
    split
    · rw [StatusStageTRB.trbType_make]
      decide
    · rw [DataStageTRB.trbType_make]
      decide
  unfold Device.dispatch
  simp only
  rw [if_neg hgood, hpointer, if_neg htype, hget]

end

/-! ## Requests that fail -/

/-- Rings that are apart can be in one memory. -/
theorem exists_inMemory (h : RingsApart d) : ∃ m, d.InMemory m := by
  let At (a : BitVec 64) (trb : TRB) : Prop :=
    ∃ i r n, d.transferRings i = some r ∧ n < 31 ∧ a = Ring.slotAddress r.base n ∧ trb = r.buf n
  have hchoice : ∀ a, ∃ trb, ∀ trb', At a trb' → At a trb := by
    intro a
    by_cases hat : ∃ trb, At a trb
    · exact hat.imp fun _ htrb _ _ => htrb
    · exact ⟨0, fun trb' htrb' => absurd ⟨trb', htrb'⟩ hat⟩
  choose trbAt htrbAt using hchoice
  refine ⟨⟨fun _ => 0#32, trbAt, fun _ => 0#8, fun _ => ⟨0#20, 0#4, 0#5, 0#8⟩, none,
    fun _ => none, none, 0⟩, fun i r hr n hn => ?_⟩
  -- the address of a slot is the address of no other slot of the device
  obtain ⟨i', r', n', hr', hn', haddress, htrb⟩ :=
    htrbAt (Ring.slotAddress r.base n) (r.buf n) ⟨i, r, n, hr, hn, rfl, rfl⟩
  obtain ⟨-, rfl, rfl⟩ := h.slot_inj hr hr' hn hn' haddress
  exact htrb

/-- A device on which requests for a configuration have failed one after the other. -/
def failing : ℕ → Device
  | 0 => { Device.new 1#8 ⟨0x10000#64, 0x20000#64⟩ with
      transferRings := fun i => if i = 0 then some (.initializeWith 0x1000#64 32) else none }
  | n + 1 =>
    match (failing n).setConfiguration kDefaultControlPipeID 1#8 with
    | some (_, d) => d
    | none => failing n

/-- The request behind `n` failed ones. -/
def afterFailures (n : ℕ) : Transfer :=
  .issued (failing n) false kDefaultControlPipeID (.setConfiguration 1#8) 0#64 0

/-- The event of a stall. -/
def stallEvent : TRB := ![0#32, 0#32, 6#8 ++ 0#24, 0#32]

theorem failing_succ {n : ℕ} (hn : n < 17) :
    (failing n).controlTransfer false kDefaultControlPipeID (.setConfiguration 1#8) 0#64 0 none =
      some (.kSuccess, failing (n + 1)) := by
  have hcall : ∀ n < 17, ((failing n).setConfiguration kDefaultControlPipeID 1#8).map Prod.fst =
      some .kSuccess := by decide +kernel
  obtain ⟨⟨err, d⟩, hsome, rfl⟩ := Option.map_eq_some_iff.mp (hcall n hn)
  have hnext : failing (n + 1) = d := by
    rw [failing, hsome]
  rw [hnext]
  exact hsome

/-- A request that fails leaves its entry behind. -/
theorem reachable_failing {n : ℕ} (hn : n ≤ 17) : transferSystem.Reachable ⟨failing n, []⟩ := by
  induction n with
  | zero =>
    refine .start ⟨rfl, ⟨fun i r hr => ?_, fun i i' r r' hr hr' _ _ _ _ _ => ?_⟩, rfl⟩
    · obtain ⟨_, hr⟩ := Option.ite_none_right_eq_some.mp hr
      rw [← Option.some.inj hr]
      exact LoggedRing.wellFormed_initializeWith _
    · rw [(Option.ite_none_right_eq_some.mp hr).1, (Option.ite_none_right_eq_some.mp hr').1]
  | succ n ih =>
    have hissued := (ih (by omega)).next
      (.issued (failing_succ (by omega)) (by simp) fun t ht => absurd ht List.not_mem_nil)
    obtain ⟨m, hmem⟩ := exists_inMemory (transferInvariant_of_reachable hissued).rings
    have hfailed : ¬ Device.Succeeded stallEvent := by
      unfold Device.Succeeded
      decide
    have hcompleted := hissued.next
      (@TransferStep.completed _ m stallEvent [] [] (afterFailures n) hmem rfl
        fun hcode => absurd hcode hfailed)
    rw [Device.dispatch_failed hfailed] at hcompleted
    exact hcompleted

/-! ## Which completions find their request -/

section
variable {m : Machine} {trb : TRB}

/-- In every run a completion is given to the handler, with the request and the buffer of the
call that issued the transfer and the length requested less the residual, exactly when the call
found a slot for its entry and the length fits its field. That a whole event of the driver is a
step of such a run, with all that its handler issues, is `reachable_onTransferEventReceived`. -/
theorem onControlCompleted_called_iff (h : transferSystem.Reachable s)
    (hmem : s.device.InMemory m) (ht : t ∈ s.outstanding) (hcode : Device.Succeeded trb)
    (hpointer : TransferEventTRB.pointer trb = t.completed) :
    (s.device.dispatch m trb).1 = .onControlCompleted t.setupData t.buf
        ((t.len : ℤ) - (TransferEventTRB.trbTransferLength trb).toNat) ↔
      (t.stages.HasRoom ∨ ∃ value, t.stages.HasEntry t.completed value) ∧
        (t.buf ≠ 0#64 → t.len < 2 ^ 17) ∧
        (t.buf = 0#64 → t.len = (TransferEventTRB.trbTransferLength trb).toNat) := by
  have hinv := transferInvariant_of_reachable h
  show _ ↔ t.Noted ∧ _
  by_cases hnoted : t.Noted
  · rw [hinv.dispatch_noted hmem ht hcode hpointer hnoted, Device.Dispatch.onControlCompleted.injEq]
    unfold Transfer.readLength
    -- without a data stage the status stage completes the transfer, with length 0
    by_cases hbuf : t.buf = 0#64
    · simp only [hbuf, hnoted, if_true, true_and, ne_eq, not_true_eq_false, false_implies,
        true_implies]
      omega
    · simp only [hbuf, hnoted, if_false, true_and, ne_eq, not_false_eq_true, true_implies,
        false_implies, and_true]
      have hmod := Nat.mod_lt t.len (Nat.two_pow_pos 17)
      constructor
      · intro heq
        omega
      · intro hlt
        rw [Nat.mod_eq_of_lt hlt]
  · rw [hinv.dispatch_dropped hmem ht hcode hpointer hnoted]
    exact iff_of_false (fun heq => nomatch heq) fun hand => hnoted hand.1

end

/-- The event of a request for a configuration that is the first one and succeeds. -/
def firstEvent : TRB := ![0x1010#32, 0#32, 1#8 ++ 0#24, 0#32]

theorem onControlCompleted_called_firstEvent :
    ∃ m, (failing 1).InMemory m ∧ ((failing 1).dispatch m firstEvent).1 =
      .onControlCompleted (.setConfiguration 1#8) 0#64 0 := by
  have hreach := (reachable_failing (n := 0) (by decide)).next
    (.issued (failing_succ (by decide)) (by simp) fun t ht => absurd ht List.not_mem_nil)
  obtain ⟨m, hmem⟩ := exists_inMemory (transferInvariant_of_reachable hreach).rings
  have hpointer : TransferEventTRB.pointer firstEvent = (afterFailures 0).completed := by
    decide +kernel
  have hresidual : (TransferEventTRB.trbTransferLength firstEvent).toNat = 0 := by decide
  have hcall := (onControlCompleted_called_iff hreach hmem List.mem_cons_self
    (.inl (by decide)) hpointer).mpr
  rw [hresidual] at hcall
  exact ⟨m, hmem, hcall ⟨.inl List.mem_cons_self, fun hbuf => absurd rfl hbuf, fun _ => rfl⟩⟩

/-- The event of the seventeenth request, which succeeds. -/
def successEvent : TRB := ![0x1020#32, 0#32, 1#8 ++ 0#24, 0#32]

/-- Behind sixteen failed requests, one that succeeds is not found any more. -/
theorem seventeenth_request_not_found :
    ∃ s t m, transferSystem.Reachable s ∧ s.device.InMemory m ∧ s.outstanding = [t] ∧
      Device.Succeeded successEvent ∧ TransferEventTRB.pointer successEvent = t.completed ∧
      s.device.onTransferEventReceived m successEvent =
        some (.kNoCorrespondingSetupStage, s.device) := by
  have hreach := (reachable_failing (n := 16) (by decide)).next
    (.issued (failing_succ (by decide)) (by simp) fun t ht => absurd ht List.not_mem_nil)
  have hinv := transferInvariant_of_reachable hreach
  obtain ⟨m, hmem⟩ := exists_inMemory hinv.rings
  have hcode : Device.Succeeded successEvent := .inl (by decide)
  have hpointer : TransferEventTRB.pointer successEvent = (afterFailures 16).completed := by
    decide +kernel
  have hfull : ¬ (failing 16).setupStageMap.HasRoom := by
    unfold ArrayMap.HasRoom
    decide +kernel
  have hnone : (failing 16).setupStageMap.get (afterFailures 16).completed = none := by
    decide +kernel
  have hdropped : ¬ (afterFailures 16).Noted := by
    rintro (hroom | ⟨value, hentry⟩)
    · exact hfull hroom
    · exact ArrayMap.get_eq_none_iff.mp hnone value hentry
  refine ⟨_, afterFailures 16, m, hreach, hmem, rfl, hcode, hpointer, ?_⟩
  rw [Device.onTransferEventReceived,
    hinv.dispatch_dropped hmem List.mem_cons_self hcode hpointer hdropped]
  rfl

end TommyOS.Usb
