import TommyOS.Usb.ControllerStartTheorems

/-!
# Runs of the start

The driver beside the controller and the firmware, in every interleaving: what holds of each
access, and that the start comes to its end when the controller answers.
-/

namespace TommyOS.Usb

open DeviceProgram

/-! ## A controller that answers at once -/

namespace HostRegisters

/-- The firmware lets a controller go that the system has asked for. -/
def handedOver (r : HostRegisters) : ℕ → BitVec 32 := fun p =>
  if (r.headers p).1 = 1#8 ∧ USBLEGSUP.hcOsOwnedSemaphore (r.extended p) = true then
    BitField.set (r.extended p) 16 0#1
  else r.extended p

/-- A reset is done in one step; else the controller halts or starts, as it has been told. -/
def answer (r : HostRegisters) : HostRegisters :=
  if r.hostControllerReset || r.controllerNotReady then
    { r with extended := r.handedOver, usbcmd := 0#32, usbsts := 1#32 }
  else
    { r with
      extended := r.handedOver, usbsts := BitField.set r.usbsts 0 (BitVec.ofBool !r.runStop) }

/-- The answer keeps the headers. -/
theorem headers_handedOver (r : HostRegisters) (p : ℕ) :
    (ExtendedRegister.capabilityId (r.handedOver p),
      ExtendedRegister.nextPointer (r.handedOver p)) = r.headers p := by
  unfold handedOver
  by_cases howned : (r.headers p).1 = 1#8 ∧ USBLEGSUP.hcOsOwnedSemaphore (r.extended p) = true
  · rw [if_pos howned]
    unfold ExtendedRegister.capabilityId ExtendedRegister.nextPointer headers
    rw [BitField.get_set_of_disjoint _ 0#1 (by omega) (by omega),
      BitField.get_set_of_disjoint _ 0#1 (by omega) (by omega)]
    rfl
  · rw [if_neg howned]
    rfl

/-- The firmware that is asked lets the controller go. -/
theorem handedOver_bits (r : HostRegisters) {p : ℕ} (hid : (r.headers p).1 = 1#8)
    (howned : USBLEGSUP.hcOsOwnedSemaphore (r.extended p) = true) :
    USBLEGSUP.hcOsOwnedSemaphore (r.handedOver p) = true ∧
      USBLEGSUP.hcBiosOwnedSemaphore (r.handedOver p) = false := by
  unfold handedOver
  rw [if_pos ⟨hid, howned⟩]
  unfold USBLEGSUP.hcOsOwnedSemaphore at howned ⊢
  unfold USBLEGSUP.hcBiosOwnedSemaphore
  rw [BitField.getLsbD_set_bit _ 16 0#1 (by omega), BitField.getLsbD_set_bit _ 16 0#1 (by omega),
    if_neg (by omega), if_pos rfl]
  exact ⟨howned, rfl⟩

theorem resetting_iff (r : HostRegisters) :
    (r.hostControllerReset || r.controllerNotReady) = true ↔ r.Resetting := Bool.or_eq_true_iff

/-- A reset ends at once. -/
theorem answer_of_resetting {r : HostRegisters} (h : r.Resetting) :
    r.answer = { r with extended := r.handedOver, usbcmd := 0#32, usbsts := 1#32 } :=
  if_pos (r.resetting_iff.mpr h)

/-- Outside of a reset the controller halts or runs as it is told. -/
theorem answer_of_ready {r : HostRegisters} (h : ¬ r.Resetting) :
    r.answer = { r with
      extended := r.handedOver, usbsts := BitField.set r.usbsts 0 (BitVec.ofBool !r.runStop) } :=
  if_neg fun hresetting => h (r.resetting_iff.mp hresetting)

theorem extended_answer (r : HostRegisters) : r.answer.extended = r.handedOver := by
  by_cases h : r.Resetting
  · rw [answer_of_resetting h]
  · rw [answer_of_ready h]

/-- No reset goes on after the answer. -/
theorem ready_answer (r : HostRegisters) : ¬ r.answer.Resetting := by
  by_cases h : r.Resetting
  · rw [answer_of_resetting h]
    exact not_or.mpr ⟨by show ¬ (0#32).getLsbD 1 = true; decide, by
      show ¬ (1#32).getLsbD 11 = true; decide⟩
  · rw [answer_of_ready h]
    refine fun h' => h (h'.imp_right fun hbit => ?_)
    have hbit : (BitField.set r.usbsts 0 (BitVec.ofBool !r.runStop)).getLsbD 11 = true := hbit
    rwa [BitField.getLsbD_set_bit _ 0 _ (by omega), if_neg (by omega)] at hbit

/-- Outside of a reset the controller halts exactly when it is not run. -/
theorem halted_answer {r : HostRegisters} (h : ¬ r.Resetting) :
    r.answer.hostControllerHalted = !r.runStop := by
  rw [answer_of_ready h]
  show (BitField.set r.usbsts 0 (BitVec.ofBool !r.runStop)).getLsbD 0 = _
  rw [BitField.getLsbD_set_bit _ 0 _ (by omega), if_pos rfl]
  cases r.runStop <;> rfl

theorem headers_answer (r : HostRegisters) : r.answer.headers = r.headers := by
  funext p
  unfold headers
  rw [extended_answer]
  exact r.headers_handedOver p

/-- Nothing but the semaphore of the firmware is cleared. -/
theorem hcBiosOwnedSemaphore_handedOver {r : HostRegisters} {p : ℕ}
    (h : USBLEGSUP.hcBiosOwnedSemaphore (r.handedOver p) = true) :
    USBLEGSUP.hcBiosOwnedSemaphore (r.extended p) = true := by
  by_cases howned : (r.headers p).1 = 1#8 ∧ USBLEGSUP.hcOsOwnedSemaphore (r.extended p) = true
  · exact Bool.noConfusion ((r.handedOver_bits howned.1 howned.2).2.symm.trans h)
  · rwa [handedOver, if_neg howned] at h

theorem fresh_answer (r : HostRegisters) : Fresh r.answer where
  ready := r.ready_answer
  coherent hhalted := by
    by_cases h : r.Resetting
    · rw [answer_of_resetting h]
      show (0#32).getLsbD 0 = false
      decide
    · rw [halted_answer h, Bool.not_eq_true'] at hhalted
      rw [answer_of_ready h]
      exact hhalted

theorem answer_hardwareStep (r : HostRegisters) : HardwareStep r r.answer where
  resetRequest h := absurd (.inl h) r.ready_answer
  resetting h := absurd h r.ready_answer
  settings h := by
    rw [answer_of_ready h]
    rfl
  halted h hstop _ := by
    rw [halted_answer h, hstop]
    rfl
  stopped h hrun hhalted := by
    rw [halted_answer h, hrun] at hhalted
    exact nomatch hhalted
  reset h _ := by
    rw [answer_of_resetting h]
    exact ⟨by show (1#32).getLsbD 0 = true; decide, by show (0#32).getLsbD 0 = false; decide⟩

/-- The answers are steps of a controller and its firmware. -/
theorem answer_step (first : Option ℕ) (r : HostRegisters) : HostStep first r r.answer where
  headers := r.headers_answer
  untouched p _ hfree := by
    rw [extended_answer, handedOver, if_neg fun h => absurd h.2 (by rw [hfree]; decide)]
  owned p hp howned := by
    rw [extended_answer]
    exact (r.handedOver_bits hp.id_eq howned).1
  firmwareOwns := by
    rintro ⟨p, hp, hbios⟩
    rw [headers_answer] at hp
    rw [extended_answer] at hbios
    exact ⟨p, hp, hcBiosOwnedSemaphore_handedOver hbios⟩
  letsGo _ _ := r.fresh_answer
  controller _ := r.answer_hardwareStep

end HostRegisters

/-- The controller answers every wait of the driver. -/
theorem answering_eagerRun (first : Option ℕ)
    (c : DeviceProgram HostRegisters Error × HostRegisters) :
    Answering first (AnswersIn (eagerRun HostRegisters.answer c)) where
  handsOver p := answersIn_eagerRun (fun r hr => by
    obtain ⟨hos, hbios⟩ := r.handedOver_bits hr.1.id_eq hr.2
    rw [ownedByOs, HostRegisters.extended_answer, hos, hbios]
    rfl) c
  halts := answersIn_eagerRun (fun r hr => by
    rw [halted, HostRegisters.halted_answer hr.2.1, hr.2.2]
    rfl) c
  resets := answersIn_eagerRun (fun r _ => by
    simpa [resetDone] using not_or.mp r.ready_answer |>.1) c
  getsReady := answersIn_eagerRun (fun r _ => by
    simpa [controllerReady] using not_or.mp r.ready_answer |>.2) c
  starts := answersIn_eagerRun (fun r hr => by
    rw [started, HostRegisters.halted_answer hr.2.1, hr.2.2]
    rfl) c

/-! A controller that the firmware owns at first, and is just resetting. -/

namespace ExampleStart

/-- A new pool at 2 MiB. -/
def log : PoolLog := .start (.new 0x200000#64)

/-- One extended capability, 0x100 words behind the first register. -/
def capabilities : CapabilityRegisters := ⟨0#32, 0x01000000#32⟩

/-- The firmware owns the controller and resets it. -/
def registers : HostRegisters where
  extended p := if p = 0x100 then 0x00010001#32 else 0#32
  usbcmd := 3#32
  usbsts := 0#32
  crcr := 0#64
  dcbaap := 0#64
  config := 0#32
  iman := 0#32
  interrupter := ⟨0#32, 0#64, 0#64⟩

def start : DeviceProgram HostRegisters Error := startController 1 log capabilities

abbrev err : Error := initializeError log capabilities.hcsparams2

abbrev memory : HostMemory := controllerMemory log capabilities.hcsparams2

abbrev first : Option ℕ := capabilities.firstExtended

theorem firmwareOwns : FirmwareOwns first registers := ⟨0x100, .here rfl, rfl⟩

theorem atStart : AtStart first registers where
  fresh hfree := absurd firmwareOwns hfree
  unasked _ p _ := by
    show USBLEGSUP.hcOsOwnedSemaphore (if p = 0x100 then 0x00010001#32 else 0#32) = false
    by_cases hp : p = 0x100
    · rw [if_pos hp]
      decide
    · rw [if_neg hp]
      decide

theorem served : DeviceManagerServed log := by
  unfold DeviceManagerServed
  decide +kernel

theorem searchEnds : SearchEnds registers.headers 1 capabilities.firstExtended := .inl rfl

theorem sane : log.pool.Sane := MemoryPool.sane_new (by decide) (by decide)

def run : ℕ → DeviceProgram HostRegisters Error × HostRegisters :=
  eagerRun HostRegisters.answer (start, registers)

theorem reachable (n : ℕ) :
    (system (HostStep first) (startController 1 log capabilities) (· = registers)).Reachable
      (run n) :=
  eagerRun_reachable (HostRegisters.answer_step first) (· = registers) rfl _ n

theorem run_zero : (run 0).1 = startController 1 log capabilities := rfl

/-- The third access asks the firmware. -/
theorem asks : ProgramStep (run 2) (run 3) := .access

end ExampleStart

/-! ## Runs -/

/-- Nothing is asked of the answers. -/
theorem answering_true (first : Option ℕ) : Answering first fun _ _ => True := by
  constructor <;> intros <;> trivial

/-- In every interleaving with the controller and the firmware, every access of the driver respects
the guarantee; a driver that has come to its end has started the controller. -/
theorem startController_safe {s : PoolLog} {cap : CapabilityRegisters} {fuel : ℕ}
    {r₀ : HostRegisters} (hs : s.pool.Sane) (hr : AtStart cap.firstExtended r₀)
    (hserved : FirmwareOwns cap.firstExtended r₀ → DeviceManagerServed s)
    (hends : SearchEnds r₀.headers fuel cap.firstExtended)
    {c : DeviceProgram HostRegisters Error × HostRegisters}
    (hc : (system (HostStep cap.firstExtended) (startController fuel s cap) (· = r₀)).Reachable c) :
    (∀ d, ProgramStep c d → StartGuarantee cap.firstExtended (initializeError s cap.hcsparams2)
        (controllerMemory s cap.hcsparams2) c.2 d.2) ∧
      ∀ e, c.1 = .done e → e = initializeError s cap.hcsparams2 ∧
        Running cap.firstExtended (initializeError s cap.hcsparams2)
          (controllerMemory s cap.hcsparams2) c.2 := by
  have hmeets := Meets.reachable (C := startContract cap.firstExtended
      (initializeError s cap.hcsparams2) (controllerMemory s cap.hcsparams2) fun _ _ => True)
    (fun r (h : r = r₀) =>
      h ▸ startController_meets (answering_true _) hs hends hr hserved rfl rfl) hc
  refine ⟨fun d hstep => hmeets.guarantee hstep, fun e he => ?_⟩
  rw [he] at hmeets
  exact hmeets.at_end

theorem ExampleStart.finishes : ∃ n e, (run n).1 = .done e := by
  have hmeets := startController_meets (answering_eagerRun first (start, registers)) sane searchEnds
    atStart (fun _ => served) rfl rfl
  have hrun : FairRun (HostStep first) run := eagerRun_fair (HostRegisters.answer_step first) _
  exact hrun.finishes (C := startContract first err memory (AnswersIn run)) (fun _ _ h => h) hmeets

theorem startController_safe_example :
    StartGuarantee ExampleStart.first ExampleStart.err ExampleStart.memory (ExampleStart.run 2).2
        (ExampleStart.run 3).2 ∧
      ∃ n, (ExampleStart.run n).1 = .done ExampleStart.err ∧
        Running ExampleStart.first ExampleStart.err ExampleStart.memory (ExampleStart.run n).2 := by
  have hsafe := fun n => startController_safe ExampleStart.sane ExampleStart.atStart
    (fun _ => ExampleStart.served) ExampleStart.searchEnds (ExampleStart.reachable n)
  obtain ⟨n, e, hdone⟩ := ExampleStart.finishes
  obtain ⟨heq, hrunning⟩ := (hsafe n).2 e hdone
  exact ⟨(hsafe 2).1 _ ExampleStart.asks, n, hdone.trans (congrArg _ heq), hrunning⟩

/-- In every fair run beside a controller and a firmware that answer, the driver comes to its end,
and the controller runs. -/
theorem startController_ends {s : PoolLog} {cap : CapabilityRegisters} {fuel : ℕ}
    {tr : ℕ → DeviceProgram HostRegisters Error × HostRegisters} (hs : s.pool.Sane)
    (hstart : (tr 0).1 = startController fuel s cap) (hr : AtStart cap.firstExtended (tr 0).2)
    (hserved : FirmwareOwns cap.firstExtended (tr 0).2 → DeviceManagerServed s)
    (hends : SearchEnds (tr 0).2.headers fuel cap.firstExtended)
    (hrun : FairRun (HostStep cap.firstExtended) tr)
    (hanswers : Answering cap.firstExtended (AnswersIn tr)) :
    ∃ n, (tr n).1 = .done (initializeError s cap.hcsparams2) ∧
      Running cap.firstExtended (initializeError s cap.hcsparams2)
        (controllerMemory s cap.hcsparams2) (tr n).2 := by
  have hmeets := startController_meets hanswers hs hends hr hserved rfl rfl
  rw [← hstart] at hmeets
  obtain ⟨n, e, he⟩ := hrun.finishes (C := startContract cap.firstExtended
    (initializeError s cap.hcsparams2) (controllerMemory s cap.hcsparams2) (AnswersIn tr))
    (fun _ _ h => h) hmeets
  have hend := hrun.meets (C := startContract cap.firstExtended
    (initializeError s cap.hcsparams2) (controllerMemory s cap.hcsparams2) (AnswersIn tr)) hmeets n
  rw [he] at hend
  obtain ⟨heq, hrunning⟩ := hend.at_end
  exact ⟨n, he.trans (congrArg _ heq), hrunning⟩

theorem startController_ends_example :
    ∃ n, (ExampleStart.run n).1 = .done ExampleStart.err ∧
      Running ExampleStart.first ExampleStart.err ExampleStart.memory (ExampleStart.run n).2 :=
  startController_ends ExampleStart.sane ExampleStart.run_zero ExampleStart.atStart
    (fun _ => ExampleStart.served) ExampleStart.searchEnds
    (eagerRun_fair (HostRegisters.answer_step ExampleStart.first) _) (answering_eagerRun _ _)

end TommyOS.Usb
