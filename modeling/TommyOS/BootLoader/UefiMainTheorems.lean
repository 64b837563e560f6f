import TommyOS.BootLoader.KernelFile
import TommyOS.BootLoader.UefiMain

/-!
# What the boot loader hands over

Whatever the firmware does within its rules, the kernel is entered with the memory map that the
firmware had when boot services ended, and the boot loader halts only for one of a few reasons.
-/

namespace TommyOS.BootLoader

open ByteRecords DeviceProgram Relation

variable {F : Type} {fw : Firmware F}

/-! ## The firmware at the start -/

/-- The firmware starts the boot loader, which has the buffer on its stack. -/
structure Booted (fw : Firmware F) (memmapBuf : ℕ) (s : BootState F) : Prop where
  exited : fw.exited s.firmware = false
  inUse : (memmapBuf, kMemmapBufSize) ∈ fw.inUse s.firmware
  calls : s.calls = []
  buffer : memmapBuf ≠ 0
  noWrap : memmapBuf + kMemmapBufSize < 2 ^ 64

/-- A call needs boot services. Behind `ExitBootServices` only the memory allocation services may be
relied on, but the boot loader prints its last message all the same. -/
structure CallAllowed (fw : Firmware F) (s : BootState F) (c : BootCall) : Prop where
  exited : fw.exited s.firmware = false
  afterRefusal : (∃ e ∈ s.calls, e.1.isExit = true) →
    c.isExit = true ∨ c.isMemoryService = true ∨ c = .print

/-- The boot loader never waits for the firmware. -/
def bootContract (fw : Firmware F) (device : BootState F → BootState F → Prop) :
    Contract (BootState F) where
  device := device
  guarantee s t := t = s ∨ ∃ c, t = fw.called c s ∧ CallAllowed fw s c
  guarantee_refl _ := .inl rfl
  answers _ _ := False

/-! ## How it ends -/

/-- The kernel gets the memory map as it is, the frame buffer, and control at its entry point. -/
structure HandedOver (fw : Firmware F) (entryAddr : ℕ) (config : FrameBufferConfig)
    (memmap : MemoryMap) (memory : Memory) (s : BootState F) : Prop where
  exited : fw.exited s.firmware = true
  memoryMap : memmap.descriptors memory =
    some ((fw.memoryMap s.firmware).map EfiMemoryDescriptor.view)
  config : ∃ format, pixelFormatOf (fw.mode s.firmware).pixelFormat = some format ∧
    config = (fw.mode s.firmware).config format
  kernel : KernelInMemory (fw.kernelFile s.firmware) memory
  entry : ∀ phdr ∈ segments (fw.kernelFile s.firmware), phdr.pOffset = 0 → 32 ≤ phdr.pFilesz →
    (∀ q ∈ segments (fw.kernelFile s.firmware), phdr.pVaddr ≤ q.pVaddr) →
    entryAddr = eEntry (fw.kernelFile s.firmware)
  orderly : s.calls.Pairwise Orderly

/-- A call other than `ExitBootServices` has failed. -/
def Failed (status : EfiStatus) (calls : CallLog) : Prop :=
  ∃ c : BootCall, c.isExit = false ∧ (c, status) ∈ calls

/-- Why the boot loader may halt. -/
inductive HaltReason (mode : GopMode) : String → BitVec 64 → CallLog → Prop
  | callFailed {message : String} {status : EfiStatus} {calls : CallLog}
      (herror : efiError status = true) (hfailed : Failed status calls) :
      HaltReason mode message status calls
  | refusedTwice {calls : CallLog} (htwice : 1 < refusals calls) :
      HaltReason mode "failed to exit boot services: %r\n" EFI_INVALID_PARAMETER calls
  | pixelFormat {argument : BitVec 64} {calls : CallLog}
      (hformat : pixelFormatOf mode.pixelFormat = none) :
      HaltReason mode "Unimplemented pixel format: %d\n" argument calls

/-- What holds at each of the two ends. -/
def BootPost (fw : Firmware F) (mode : GopMode) : Outcome → BootState F → Prop
  | .entered entryAddr config memmap memory, s => HandedOver fw entryAddr config memmap memory s
  | .halted message argument, s => HaltReason mode message argument s.calls

/-- The end, also beside a firmware that stops its timers. -/
def BootEnd (fw : Firmware F) (mode : GopMode) (quiet : Prop) (outcome : Outcome)
    (s : BootState F) : Prop :=
  BootPost fw mode outcome s ∧ (quiet → refusals s.calls ≤ 1)

/-! ## The calls that were made -/

section Calls

variable {calls : CallLog} {mode : GopMode} {message : String} {argument : BitVec 64}

theorem refusals_concat (calls : CallLog) (call : BootCall × EfiStatus) :
    refusals (calls ++ [call]) =
      refusals calls + if call.1.isExit && efiError call.2 then 1 else 0 := by
  unfold refusals
  rw [List.countP_append, List.countP_singleton]

theorem refusals_concat_of_not_exit {c : BootCall} (hc : c.isExit = false) (status : EfiStatus) :
    refusals (calls ++ [(c, status)]) = refusals calls := by
  rw [refusals_concat, hc]
  rfl

theorem refusals_exit (calls : CallLog) (key : ℕ) (status : EfiStatus) :
    refusals (calls ++ [(.exitBootServices key, status)]) =
      refusals calls + if efiError status then 1 else 0 :=
  refusals_concat calls _

/-- A log stays in order when the new call may follow each earlier one. -/
theorem orderly_concat {call : BootCall × EfiStatus} (h : calls.Pairwise Orderly)
    (hcall : ∀ e ∈ calls, Orderly e call) : (calls ++ [call]).Pairwise Orderly := by
  refine List.pairwise_append.mpr ⟨h, List.pairwise_singleton _ _, fun e he x hx => ?_⟩
  rw [List.mem_singleton.mp hx]
  exact hcall e he

theorem Failed.concat {status : EfiStatus} (h : Failed status calls)
    (call : BootCall × EfiStatus) : Failed status (calls ++ [call]) := by
  obtain ⟨c, hc, hmem⟩ := h
  exact ⟨c, hc, List.mem_append_left _ hmem⟩

/-- A reason to halt stays one while more calls are made. -/
theorem HaltReason.concat (h : HaltReason mode message argument calls)
    (call : BootCall × EfiStatus) : HaltReason mode message argument (calls ++ [call]) := by
  cases h with
  | callFailed herror hfailed => exact .callFailed herror (hfailed.concat call)
  | refusedTwice htwice =>
    refine .refusedTwice ?_
    rw [refusals_concat]
    omega
  | pixelFormat hformat => exact .pixelFormat hformat

end Calls

/-! ## While boot services are there -/

/-- The boot loader runs beside a firmware that keeps its rules and maybe stops its timers. -/
structure Beside (fw : Firmware F) (device : BootState F → BootState F → Prop) (quiet : Prop) :
    Prop where
  rules : fw.Rules
  step : ∀ s t, device s t → BootStep fw s t
  quiet : quiet → ∀ s t, device s t → QuietStep fw s t

/-- The firmware after `n` refusals, with some of the regions that belong to the boot loader. -/
structure Running (fw : Firmware F) (start : F) (regions : List (ℕ × ℕ)) (n : ℕ)
    (s : BootState F) : Prop where
  evolves : fw.Evolves start s.firmware
  exited : fw.exited s.firmware = false
  inUse : ∀ region ∈ regions, region ∈ fw.inUse s.firmware
  orderly : s.calls.Pairwise Orderly
  refusals : refusals s.calls = n
  unasked : n = 0 → ∀ e ∈ s.calls, e.1.isExit = false

/-- The last message is about to be printed. -/
structure Halting (fw : Firmware F) (mode : GopMode) (quiet : Prop) (message : String)
    (argument : BitVec 64) (s : BootState F) : Prop where
  exited : fw.exited s.firmware = false
  reason : HaltReason mode message argument s.calls
  quiet : quiet → BootLoader.refusals s.calls ≤ 1

section Rules

variable {device : BootState F → BootState F → Prop} {quiet : Prop} {s : BootState F} {start : F}
  {regions : List (ℕ × ℕ)} {n : ℕ} {mode : GopMode} {α : Type} {post : α → BootState F → Prop}

/-- A step of the firmware is one of its evolution. -/
theorem Beside.evolves (hfw : Beside fw device quiet) {t : BootState F} (hst : device s t) :
    fw.Evolves s.firmware t.firmware := .single (.inl (hfw.step s t hst).1)

theorem evolves_next (fw : Firmware F) (c : BootCall) (s : F) : fw.Evolves s (fw.next c s) :=
  .single (.inr ⟨c, rfl⟩)

/-- What the firmware does on its own leaves the boot loader running. -/
theorem Running.stable (hfw : Beside fw device quiet) :
    Stable device (Running fw start regions n) := by
  intro s t hs hst
  obtain ⟨hback, hcalls⟩ := hfw.step s t hst
  exact {
    evolves := hs.evolves.trans (hfw.evolves hst)
    exited := (hfw.rules.exited _ _ hback).trans hs.exited
    inUse := fun region hregion => hfw.rules.inUse _ _ hback _ (hs.inUse region hregion)
    orderly := hcalls ▸ hs.orderly
    refusals := hcalls ▸ hs.refusals
    unasked := hcalls ▸ hs.unasked }

/-- A call that may be made after `n` refusals. -/
theorem Running.allowed (hs : Running fw start regions n s) {c : BootCall}
    (hmemory : n ≠ 0 → c.isMemoryService = true) : CallAllowed fw s c := by
  refine ⟨hs.exited, fun ⟨e, he, hexit⟩ => ?_⟩
  by_cases hn : n = 0
  · exact absurd hexit (by rw [hs.unasked hn e he]; decide)
  · exact .inr (.inl (hmemory hn))

/-- So does a call that does not end boot services and gives no region back. -/
theorem Running.called (hs : Running fw start regions n s) (hfw : Beside fw device quiet)
    {c : BootCall} (hexit : c.isExit = false) (hmemory : n ≠ 0 → c.isMemoryService = true)
    (hfree : ∀ region ∈ regions, c ≠ .freePool region.1) :
    Running fw start regions n (fw.called c s) where
  evolves := hs.evolves.trans (evolves_next fw c _)
  exited := (hfw.rules.exited_next c _ hexit).trans hs.exited
  inUse region hregion :=
    hfw.rules.inUse_next c _ region (hs.inUse region hregion) (hfree region hregion)
  orderly := by
    refine orderly_concat hs.orderly fun e he hearlier => ?_
    by_cases hn : n = 0
    · exact absurd hearlier (by rw [hs.unasked hn e he]; decide)
    · exact .inr (hmemory hn)
  refusals := (refusals_concat_of_not_exit hexit _).trans hs.refusals
  unasked hn e he := by
    rcases List.mem_append.mp he with he | he
    · exact hs.unasked hn e he
    · rw [List.mem_singleton.mp he]
      exact hexit

/-- The rule for a call in front of the rest: the log has it with its status from then on. -/
theorem meets_call {c : BootCall} {k : EfiStatus → DeviceProgram (BootState F) α}
    (hfw : Beside fw device quiet) (hs : Running fw start regions 0 s) (hexit : c.isExit = false)
    (hfree : ∀ region ∈ regions, c ≠ .freePool region.1)
    (h : ∀ status t, Running fw start regions 0 t → (c, status) ∈ t.calls →
      Meets (bootContract fw device) post (k status) t) :
    Meets (bootContract fw device) post (fw.call c >>= k) s := by
  refine meets_exchange (C := bootContract fw device) (Running.stable hfw) hs (fun t ht => ?_)
    fun t ht => ?_
  · exact .inr ⟨c, rfl, ht.allowed fun hn => absurd rfl hn⟩
  · exact h _ _ (ht.called hfw hexit (fun hn => absurd rfl hn) hfree)
      (List.mem_append_right _ (List.mem_singleton.mpr rfl))

theorem meets_print {k : PUnit → DeviceProgram (BootState F) α} (hfw : Beside fw device quiet)
    (hs : Running fw start regions 0 s)
    (h : ∀ t, Running fw start regions 0 t → Meets (bootContract fw device) post (k ⟨⟩) t) :
    Meets (bootContract fw device) post (print fw >>= k) s :=
  meets_call (k := fun _ => k ⟨⟩) hfw hs rfl (fun _ _ => nofun) fun _ t ht _ => h t ht

theorem Halting.stable (hfw : Beside fw device quiet) {message : String} {argument : BitVec 64} :
    Stable device (Halting fw mode quiet message argument) := by
  intro s t hs hst
  obtain ⟨hback, hcalls⟩ := hfw.step s t hst
  exact ⟨(hfw.rules.exited _ _ hback).trans hs.exited, hcalls ▸ hs.reason, hcalls ▸ hs.quiet⟩

/-- The call that prints. -/
theorem Halting.print (hfw : Beside fw device quiet) {message : String} {argument : BitVec 64}
    (hs : Halting fw mode quiet message argument s) :
    Halting fw mode quiet message argument (fw.called .print s) where
  exited := (hfw.rules.exited_next .print _ rfl).trans hs.exited
  reason := hs.reason.concat _
  quiet hquiet := (refusals_concat_of_not_exit rfl _).trans_le (hs.quiet hquiet)

theorem Running.halting (hs : Running fw start regions n s) (hn : n ≤ 1) {message : String}
    {argument : BitVec 64} (hreason : HaltReason mode message argument s.calls) :
    Halting fw mode quiet message argument s :=
  ⟨hs.exited, hreason, fun _ => hs.refusals.trans_le hn⟩

/-- The last message, and the end. -/
theorem meets_halt (hfw : Beside fw device quiet) {message : String} {argument : BitVec 64}
    (hs : Halting fw mode quiet message argument s) :
    Meets (bootContract fw device) (BootEnd fw mode quiet)
      (print fw >>= fun _ => pure (.halted message argument)) s := by
  refine meets_exchange (C := bootContract fw device) (Halting.stable hfw) hs (fun t ht => ?_)
    fun t ht => ?_
  · exact .inr ⟨.print, rfl, ht.exited, fun _ => .inr (.inr rfl)⟩
  · exact meets_pure (C := bootContract fw device) (Halting.stable hfw) (Halting.print hfw ht)
      fun u hu => ⟨hu.reason, hu.quiet⟩

/-- The rule for the check of a status. -/
theorem meets_haltIfError (hfw : Beside fw device quiet) {message : String} {status : EfiStatus}
    {next : DeviceProgram (BootState F) Outcome}
    (hreason : efiError status = true → Halting fw mode quiet message status s)
    (h : efiError status = false →
      Meets (bootContract fw device) (BootEnd fw mode quiet) next s) :
    Meets (bootContract fw device) (BootEnd fw mode quiet)
      (haltIfError fw message status next) s := by
  unfold haltIfError
  by_cases herror : efiError status = true
  · rw [if_pos herror]
    exact meets_halt hfw (hreason herror)
  · rw [if_neg herror]
    exact h (Bool.eq_false_of_not_eq_true herror)

end Rules

/-! ## The functions that only make calls -/

/-- A status that is an error was the answer to some call. -/
def Answered (fw : Firmware F) (start : F) (regions : List (ℕ × ℕ)) (status : EfiStatus)
    (s : BootState F) : Prop :=
  Running fw start regions 0 s ∧ (efiError status = true → Failed status s.calls)

section Functions

variable {device : BootState F → BootState F → Prop} {quiet : Prop} {s : BootState F} {start : F}
  {regions : List (ℕ × ℕ)} {mode : GopMode} (hfw : Beside fw device quiet)

theorem answered_of_mem {c : BootCall} {status : EfiStatus} (hs : Running fw start regions 0 s)
    (hexit : c.isExit = false) (hmem : (c, status) ∈ s.calls) :
    Answered fw start regions status s :=
  ⟨hs, fun _ => ⟨c, hexit, hmem⟩⟩

theorem answered_success (hs : Running fw start regions 0 s) :
    Answered fw start regions EFI_SUCCESS s :=
  ⟨hs, fun h => absurd h (by decide)⟩

include hfw

theorem Answered.stable {status : EfiStatus} :
    Stable device (Answered fw start regions status) := by
  intro s t hs hst
  exact ⟨Running.stable hfw _ _ hs.1 hst, fun herror => (hfw.step _ _ hst).2 ▸ hs.2 herror⟩

theorem meets_answered {status : EfiStatus} (h : Answered fw start regions status s) :
    Meets (bootContract fw device) (Answered fw start regions) (pure status) s :=
  meets_pure (C := bootContract fw device) (Answered.stable hfw) h fun _ ht => ht

/-- The last call of a function. -/
theorem call_answered {c : BootCall} (hexit : c.isExit = false)
    (hfree : ∀ region ∈ regions, c ≠ .freePool region.1) (hs : Running fw start regions 0 s) :
    Meets (bootContract fw device) (Answered fw start regions) (fw.call c) s :=
  meets_call (k := pure) hfw hs hexit hfree fun _ _ ht hmem =>
    meets_answered hfw (answered_of_mem ht hexit hmem)

/-- The status of `OpenRootDir` is that of the last call it made. -/
theorem openRootDir_answered (hs : Running fw start regions 0 s) :
    Meets (bootContract fw device) (Answered fw start regions) (openRootDir fw) s := by
  unfold openRootDir
  apply meets_call hfw hs rfl (by rintro _ _ ⟨⟩)
  intro status s hs hmem
  split
  · exact meets_answered hfw (answered_of_mem hs rfl hmem)
  · apply meets_call hfw hs rfl (by rintro _ _ ⟨⟩)
    intro status s hs hmem
    split
    · exact meets_answered hfw (answered_of_mem hs rfl hmem)
    · exact call_answered hfw rfl (by rintro _ _ ⟨⟩) hs

/-- By induction on the lines: the first write that fails is the answer. -/
theorem saveDescriptors_answered (iters : List ℕ) (hs : Running fw start regions 0 s) :
    Meets (bootContract fw device) (Answered fw start regions) (saveDescriptors fw iters) s := by
  induction iters generalizing s with
  | nil => exact meets_answered hfw (answered_success hs)
  | cons iter iters ih =>
    apply meets_call hfw hs rfl (by rintro _ _ ⟨⟩)
    intro status s hs hmem
    split
    · exact meets_answered hfw (answered_of_mem hs rfl hmem)
    · exact ih hs

/-- The loop over the map ends, since the map is one. -/
theorem saveMemoryMap_answered {map : MemoryMap} {iters : List ℕ}
    (hiters : map.iterations = some iters) (hs : Running fw start regions 0 s) :
    Meets (bootContract fw device) (Answered fw start regions) (saveMemoryMap fw map) s := by
  unfold saveMemoryMap
  apply meets_call hfw hs rfl (by rintro _ _ ⟨⟩)
  intro status s hs hmem
  split
  · exact meets_answered hfw (answered_of_mem hs rfl hmem)
  · apply meets_print hfw hs
    intro s hs
    rw [hiters]
    exact saveDescriptors_answered hfw iters hs

/-- The buffer with the handles is new, so that only this one is given back. -/
theorem openGOP_answered (hpos : ∀ region ∈ regions, 0 < region.2)
    (hs : Running fw start regions 0 s) :
    Meets (bootContract fw device) (Answered fw start regions) (openGOP fw) s := by
  unfold openGOP
  refine meets_exchange (C := bootContract fw device) (Running.stable hfw) hs
    (fun t ht => .inr ⟨.locateHandleBuffer, rfl, ht.allowed fun hn => absurd rfl hn⟩)
    fun t ht => ?_
  have hnew := ht.called hfw (c := .locateHandleBuffer) rfl (fun hn => absurd rfl hn)
    fun _ _ => nofun
  dsimp only
  split
  · exact meets_answered hfw (answered_of_mem hnew rfl
      (List.mem_append_right _ (List.mem_singleton.mpr rfl)))
  · next hsuccess =>
    have hfree := hfw.rules.locateHandleBuffer _ (Bool.eq_false_of_not_eq_true hsuccess)
    apply meets_call hfw hnew rfl (by rintro _ _ ⟨⟩)
    intro status s hs hmem
    split
    · exact meets_answered hfw (answered_of_mem hs rfl hmem)
    · refine meets_call hfw hs rfl (fun region hregion heq => ?_)
        fun _ s hs _ => meets_answered hfw (answered_success hs)
      have hapart := hfree region (ht.inUse region hregion)
      have hsize := hpos region hregion
      rw [BootCall.freePool.injEq] at heq
      omega

/-- A function and the check of its status. -/
theorem meets_answered_haltIfError {f : DeviceProgram (BootState F) EfiStatus} {message : String}
    {next : DeviceProgram (BootState F) Outcome}
    (hf : Meets (bootContract fw device) (Answered fw start regions) f s)
    (h : ∀ t, Running fw start regions 0 t →
      Meets (bootContract fw device) (BootEnd fw mode quiet) next t) :
    Meets (bootContract fw device) (BootEnd fw mode quiet)
      (f >>= fun status => haltIfError fw message status next) s :=
  hf.bind fun _ t ht => meets_haltIfError hfw
    (fun herror => ht.1.halting (by omega) (.callFailed herror (ht.2 herror))) fun _ => h t ht.1

/-- A call and the check of its status: what comes next may rely on both. -/
theorem meets_called_haltIfError {β : Type} {c : BootCall} {message : String}
    {answer : BootState F → β} {k : β → DeviceProgram (BootState F) Outcome}
    {next : BootState F → DeviceProgram (BootState F) Outcome}
    (hk : ∀ t, k (answer t) = haltIfError fw message (fw.status c t.firmware) (next t))
    (hexit : c.isExit = false) (hfree : ∀ region ∈ regions, c ≠ .freePool region.1)
    (hs : Running fw start regions 0 s)
    (h : ∀ t, Running fw start regions 0 t → efiError (fw.status c t.firmware) = false →
      Running fw start regions 0 (fw.called c t) →
      Meets (bootContract fw device) (BootEnd fw mode quiet) (next t) (fw.called c t)) :
    Meets (bootContract fw device) (BootEnd fw mode quiet)
      (exchange (fw.called c) answer >>= k) s := by
  refine meets_exchange (C := bootContract fw device) (Running.stable hfw) hs
    (fun t ht => .inr ⟨c, rfl, ht.allowed fun hn => absurd rfl hn⟩) fun t ht => ?_
  have hcalled := ht.called hfw hexit (fun hn => absurd rfl hn) hfree
  have hmem : (c, fw.status c t.firmware) ∈ (fw.called c t).calls :=
    List.mem_append_right _ (List.mem_singleton.mpr rfl)
  rw [hk]
  apply meets_haltIfError hfw
  · intro herror
    exact hcalled.halting (by omega) (.callFailed herror ⟨c, hexit, hmem⟩)
  · intro hsuccess
    exact h t ht hsuccess hcalled

end Functions

/-! ## The memory map -/

/-- The buffer has the map of some state of the firmware, with its key. -/
structure Snapshot (fw : Firmware F) (memmapBuf : ℕ) (memmap : MemoryMap) (memory : Memory)
    (taken : F) : Prop where
  buffer : memmap.buffer = memmapBuf
  bufferSize : memmap.bufferSize = kMemmapBufSize
  mapKey : memmap.mapKey = fw.mapKey taken
  describes : memmap.Describes (fw.memoryMap taken)
  fits : (mapBytes (fw.memoryMap taken)).length ≤ kMemmapBufSize
  holds : Holds memory memmapBuf (mapBytes (fw.memoryMap taken))

/-- The answer of `GetMemorymap`: the map of the time of the call, or the call has failed. -/
def GotMap (fw : Firmware F) (quiet : Prop) (memmapBuf : ℕ) (start : F) (regions : List (ℕ × ℕ))
    (n : ℕ) (memory : Memory) (r : EfiStatus × MemoryMap × Memory) (s : BootState F) : Prop :=
  (r.1 = EFI_SUCCESS ∧ ∃ taken, fw.Evolves start taken ∧
      Snapshot fw memmapBuf r.2.1 r.2.2 taken ∧ Running fw taken regions n s ∧
      (quiet → 0 < n → fw.mapKey s.firmware = fw.mapKey taken) ∧
      ∀ a, a < memmapBuf ∨ memmapBuf + kMemmapBufSize ≤ a → r.2.2 a = memory a) ∨
    (efiError r.1 = true ∧ Running fw start regions n s ∧ Failed r.1 s.calls)

section Maps

variable {device : BootState F → BootState F → Prop} {quiet : Prop} {s : BootState F} {start : F}
  {regions : List (ℕ × ℕ)} {n memmapBuf : ℕ} {memmap : MemoryMap} {memory : Memory}

/-- After a refusal the key stays, if the firmware stops its timers. -/
theorem Running.mapKey_device (hs : Running fw start regions n s) (hfw : Beside fw device quiet)
    (hquiet : quiet) (hn : 0 < n) {t : BootState F} (hst : device s t) :
    fw.mapKey t.firmware = fw.mapKey s.firmware :=
  (hfw.quiet hquiet s t hst).2 (by rw [hs.refusals]; exact hn)

/-- The map in the buffer stays what it was, whatever becomes of the map of the firmware. -/
theorem GotMap.stable (hfw : Beside fw device quiet) {r : EfiStatus × MemoryMap × Memory} :
    Stable device (GotMap fw quiet memmapBuf start regions n memory r) := by
  rintro s t (⟨hstatus, taken, htaken, hsnap, hs, hkey, hout⟩ | ⟨herror, hs, hfailed⟩) hst
  · exact .inl ⟨hstatus, taken, htaken, hsnap, Running.stable hfw _ _ hs hst,
      fun hquiet hn => (hs.mapKey_device hfw hquiet hn hst).trans (hkey hquiet hn), hout⟩
  · exact .inr ⟨herror, Running.stable hfw _ _ hs hst, (hfw.step _ _ hst).2 ▸ hfailed⟩

/-- Either the buffer is too small, or it gets the map of the time of the call. -/
theorem getMemorymap_gotMap (hfw : Beside fw device quiet) (map : MemoryMap)
    (hbuffer : map.buffer = memmapBuf) (hsize : map.bufferSize = kMemmapBufSize)
    (hne : memmapBuf ≠ 0) (hnoWrap : memmapBuf + kMemmapBufSize < 2 ^ 64)
    (hs : Running fw start regions n s) :
    Meets (bootContract fw device) (GotMap fw quiet memmapBuf start regions n memory)
      (getMemorymap fw map memory) s := by
  unfold getMemorymap
  rw [if_neg (by rw [hbuffer]; exact hne)]
  refine meets_exchange (C := bootContract fw device) (k := pure) (Running.stable hfw) hs
    (fun t ht => .inr ⟨.getMemoryMap map.bufferSize, rfl, ht.allowed fun _ => rfl⟩) fun t ht => ?_
  refine meets_pure (C := bootContract fw device) (GotMap.stable hfw) ?_ fun _ h => h
  have hstatus := hfw.rules.getMemoryMap map.bufferSize _ ht.exited
  have hcalled := ht.called hfw (c := .getMemoryMap map.bufferSize) rfl (fun _ => rfl)
    fun _ _ => nofun
  have hanswer := hfw.rules.memoryMapAnswer t.firmware { map with mapSize := map.bufferSize } memory
  dsimp only at hanswer ⊢
  by_cases hlarge : map.bufferSize < (mapBytes (fw.memoryMap t.firmware)).length
  · rw [if_pos hlarge] at hstatus
    have herror : efiError (fw.status (.getMemoryMap map.bufferSize) t.firmware) = true := by
      rw [hstatus]
      decide
    refine .inr ⟨herror, hcalled, .getMemoryMap map.bufferSize, rfl, ?_⟩
    exact List.mem_append_right _ (List.mem_singleton.mpr rfl)
  · rw [if_neg hlarge] at hstatus
    rw [hanswer (by rw [hstatus]; decide), hstatus, hbuffer]
    rw [hsize] at hlarge
    refine .inl ⟨rfl, t.firmware, ht.evolves, ⟨rfl, hsize, rfl, ?_, by omega, ?_⟩, ?_, ?_, ?_⟩
    · exact ⟨hfw.rules.descriptorSize _, hfw.rules.descriptorSize_pos _, rfl, by dsimp only; omega⟩
    · exact holds_place _ _ _
    · exact { hcalled with evolves := evolves_next fw _ _ }
    · exact fun _ _ => hfw.rules.mapKey_getMemoryMap _ _ ht.exited
    · intro a ha
      exact place_outside (by omega)

/-- The map does not change with the memory elsewhere. -/
theorem Snapshot.congr {taken : F} (h : Snapshot fw memmapBuf memmap memory taken)
    {memory' : Memory}
    (hsame : ∀ a, memmapBuf ≤ a → a < memmapBuf + kMemmapBufSize → memory' a = memory a) :
    Snapshot fw memmapBuf memmap memory' taken := by
  have hfits := h.fits
  exact { h with holds := h.holds.congr fun a hlow hhigh => hsame a hlow (by omega) }

end Maps

/-! ## The end of boot services -/

/-- Boot services have ended under a key. -/
structure Exited (fw : Firmware F) (start : F) (key : ℕ) (s : BootState F) : Prop where
  evolves : fw.Evolves start s.firmware
  exited : fw.exited s.firmware = true
  mapKey : fw.mapKey s.firmware = key
  orderly : s.calls.Pairwise Orderly
  refusals : refusals s.calls ≤ 1

/-- The answer of `ExitBootServices`: the key was that of the map, or one more refusal, which a
firmware that stops its timers does not give twice. -/
def ExitAnswer (fw : Firmware F) (quiet : Prop) (start : F) (regions : List (ℕ × ℕ)) (n key : ℕ)
    (status : EfiStatus) (s : BootState F) : Prop :=
  (status = EFI_SUCCESS ∧ Exited fw start key s) ∨
    (status = EFI_INVALID_PARAMETER ∧ Running fw start regions (n + 1) s ∧ (quiet → n = 0))

/-- The answer after the retry: boot services have ended, and the buffer has the map under the last
key. -/
def RetryAnswer (fw : Firmware F) (quiet : Prop) (mode : GopMode) (memmapBuf : ℕ) (start : F)
    (memory : Memory) (r : EfiStatus × MemoryMap × Memory) (s : BootState F) : Prop :=
  (r.1 = EFI_SUCCESS ∧ ∃ taken, fw.Evolves start taken ∧ Snapshot fw memmapBuf r.2.1 r.2.2 taken ∧
      Exited fw taken r.2.1.mapKey s ∧
      ∀ a, a < memmapBuf ∨ memmapBuf + kMemmapBufSize ≤ a → r.2.2 a = memory a) ∨
    (efiError r.1 = true ∧
      Halting fw mode quiet "failed to exit boot services: %r\n" r.1 s)

section Exit

variable {device : BootState F → BootState F → Prop} {quiet : Prop} {s : BootState F} {start : F}
  {regions : List (ℕ × ℕ)} {n key memmapBuf : ℕ} {memmap : MemoryMap} {memory : Memory}
  {mode : GopMode} (hfw : Beside fw device quiet)

include hfw

/-- Without boot services the map stays. -/
theorem Exited.stable : Stable device (Exited fw start key) := by
  intro s t hs hst
  obtain ⟨hback, hcalls⟩ := hfw.step s t hst
  exact {
    evolves := hs.evolves.trans (hfw.evolves hst)
    exited := (hfw.rules.exited _ _ hback).trans hs.exited
    mapKey := (hfw.rules.afterExit _ _ hs.exited hback).trans hs.mapKey
    orderly := hcalls ▸ hs.orderly
    refusals := hcalls ▸ hs.refusals }

theorem ExitAnswer.stable {status : EfiStatus} :
    Stable device (ExitAnswer fw quiet start regions n key status) := by
  rintro s t (⟨hstatus, hs⟩ | ⟨hstatus, hs, hquiet⟩) hst
  · exact .inl ⟨hstatus, Exited.stable hfw _ _ hs hst⟩
  · exact .inr ⟨hstatus, Running.stable hfw _ _ hs hst, hquiet⟩

/-- Both answers stay, the first with the map in the buffer. -/
theorem RetryAnswer.stable {r : EfiStatus × MemoryMap × Memory} :
    Stable device (RetryAnswer fw quiet mode memmapBuf start memory r) := by
  rintro s t (⟨hstatus, taken, htaken, hsnap, hs, hout⟩ | ⟨herror, hs⟩) hst
  · exact .inl ⟨hstatus, taken, htaken, hsnap, Exited.stable hfw _ _ hs hst, hout⟩
  · exact .inr ⟨herror, Halting.stable hfw _ _ hs hst⟩

/-- The firmware compares the key with that of its map, and that decides. -/
theorem exitBootServices_answer (hn : n ≤ 1) (hs : Running fw start regions n s)
    (hkey : quiet → 0 < n → fw.mapKey s.firmware = key) :
    Meets (bootContract fw device) (ExitAnswer fw quiet start regions n key)
      (fw.call (.exitBootServices key)) s := by
  have hstable : Stable device fun t =>
      Running fw start regions n t ∧ (quiet → 0 < n → fw.mapKey t.firmware = key) := by
    intro t u ht htu
    exact ⟨Running.stable hfw _ _ ht.1 htu,
      fun hquiet hn => (ht.1.mapKey_device hfw hquiet hn htu).trans (ht.2 hquiet hn)⟩
  refine meets_exchange (C := bootContract fw device) (k := pure) hstable ⟨hs, hkey⟩
    (fun t ht => .inr ⟨.exitBootServices key, rfl, ht.1.exited, fun _ => .inl rfl⟩)
    fun t ⟨ht, htkey⟩ => ?_
  refine meets_pure (C := bootContract fw device) (ExitAnswer.stable hfw) ?_ fun _ h => h
  have horderly : ∀ status,
      (t.calls ++ [(BootCall.exitBootServices key, status)]).Pairwise Orderly :=
    fun status => orderly_concat ht.orderly fun _ _ _ => .inl rfl
  have hevolves := ht.evolves.trans (evolves_next fw (.exitBootServices key) t.firmware)
  by_cases hsame : key = fw.mapKey t.firmware
  · obtain ⟨hstatus, hexited, hmap⟩ := hfw.rules.exit t.firmware ht.exited
    rw [← hsame] at hstatus hexited hmap
    refine .inl ⟨hstatus, hevolves, hexited, hmap, horderly _, ?_⟩
    show refusals (t.calls ++ [(.exitBootServices key, _)]) ≤ 1
    rw [refusals_exit, hstatus, ht.refusals, if_neg (by decide)]
    exact hn
  · obtain ⟨hstatus, hexited⟩ := hfw.rules.exit_refused key t.firmware ht.exited hsame
    refine .inr ⟨hstatus, ⟨hevolves, hexited, fun region hregion => ?_, horderly _, ?_,
      fun hzero => absurd hzero (Nat.succ_ne_zero n)⟩, fun hquiet => ?_⟩
    · exact hfw.rules.inUse_next _ _ region (ht.inUse region hregion) nofun
    · show refusals (t.calls ++ [(.exitBootServices key, _)]) = n + 1
      rw [refusals_exit, hstatus, ht.refusals, if_pos (by decide)]
    · -- with the key of a map that has not changed there is no refusal
      exact Nat.eq_zero_of_not_pos fun hn => hsame (htkey hquiet hn).symm

theorem meets_retryFailed {status : EfiStatus} {memmap' : MemoryMap} {memory' : Memory}
    (herror : efiError status = true)
    (hs : Halting fw mode quiet "failed to exit boot services: %r\n" status s) :
    Meets (bootContract fw device) (RetryAnswer fw quiet mode memmapBuf start memory)
      (pure (status, memmap', memory')) s := by
  have hanswer : RetryAnswer fw quiet mode memmapBuf start memory (status, memmap', memory') s :=
    .inr ⟨herror, hs⟩
  exact meets_pure (C := bootContract fw device) (RetryAnswer.stable hfw) hanswer fun _ h => h

/-- With a map of its own time the second try fails only if the map has changed once more. -/
theorem exitBootServicesWithRetry_answer (hne : memmapBuf ≠ 0)
    (hnoWrap : memmapBuf + kMemmapBufSize < 2 ^ 64)
    (hsnap : Snapshot fw memmapBuf memmap memory start) (hs : Running fw start regions 0 s) :
    Meets (bootContract fw device) (RetryAnswer fw quiet mode memmapBuf start memory)
      (exitBootServicesWithRetry fw memmap memory) s := by
  unfold exitBootServicesWithRetry
  apply (exitBootServices_answer hfw (by omega) hs fun _ hn => absurd hn (by omega)).bind
  rintro _ s (⟨rfl, hs⟩ | ⟨rfl, hs, -⟩)
  · exact meets_pure (C := bootContract fw device) (RetryAnswer.stable hfw)
      (.inl ⟨rfl, start, .refl, hsnap, hs, fun _ _ => rfl⟩) fun _ h => h
  rw [if_neg (by decide)]
  apply (getMemorymap_gotMap hfw memmap hsnap.buffer hsnap.bufferSize hne hnoWrap hs).bind
  rintro ⟨status, memmap', memory'⟩ s hgot
  dsimp only
  rcases hgot with ⟨hstatus, taken, htaken, hsnap', hs, hkey, hout⟩ | ⟨herror, hs, hfailed⟩
  · dsimp only at hstatus hsnap' hout
    rw [hstatus, if_neg (by decide)]
    apply (exitBootServices_answer hfw (by omega) hs fun hquiet hn =>
      (hkey hquiet hn).trans hsnap'.mapKey.symm).bind
    rintro _ s (⟨rfl, hs⟩ | ⟨rfl, hs, hquiet⟩)
    · exact meets_pure (C := bootContract fw device) (RetryAnswer.stable hfw)
        (.inl ⟨rfl, taken, htaken, hsnap', hs, hout⟩) fun _ h => h
    · refine meets_retryFailed hfw (by decide) ⟨hs.exited, .refusedTwice ?_, fun h => ?_⟩
      · rw [hs.refusals]
        omega
      · exact absurd (hquiet h) (by omega)
  · dsimp only at herror hfailed
    rw [if_pos herror]
    have hhalting : Halting fw mode quiet "failed to exit boot services: %r\n" status s :=
      hs.halting (by omega) (.callFailed herror hfailed)
    refine meets_exchange (C := bootContract fw device) (Halting.stable hfw) hhalting
      (fun t ht => .inr ⟨.print, rfl, ht.exited, fun _ => .inr (.inr rfl)⟩) fun t ht => ?_
    exact meets_retryFailed hfw herror (Halting.print hfw ht)

end Exit

/-! ## The kernel in its pages -/

/-- The kernel is in memory beside the map, and its first page is where the boot loader looks for
the entry point. -/
structure KernelPlaced (file : List (BitVec 8)) (memmapBuf : ℕ) (memory : Memory)
    (kernelFirstAddr : ℕ) : Prop where
  inMemory : KernelInMemory file memory
  apart : ∀ phdr ∈ segments file, ∀ a, phdr.Covers a →
    a < memmapBuf ∨ memmapBuf + kMemmapBufSize ≤ a
  first : ∀ phdr ∈ segments file, (∀ q ∈ segments file, phdr.pVaddr ≤ q.pVaddr) →
    kernelFirstAddr = phdr.pVaddr

section Load

variable {device : BootState F → BootState F → Prop} {quiet : Prop} {s : BootState F} {start : F}
  {regions : List (ℕ × ℕ)} {memmapBuf : ℕ} {memory : Memory}

/-- The memory when the kernel was put into place, if the buffers are where they may be. -/
theorem kernelPlaced_copy {file : List (BitVec 8)} {pool : ℕ} (helf : IsElfFile file)
    (hend : pool + file.length ≤ 2 ^ 64)
    (hpool : pool + file.length ≤ memmapBuf ∨ memmapBuf + kMemmapBufSize ≤ pool)
    {mem : Memory} (hmem : mem = place memory pool file)
    (hpages : ∀ region ∈ [(pool, file.length), (memmapBuf, kMemmapBufSize)],
      (calcLoadAddressRange mem pool).1 + numPages (calcLoadAddressRange mem pool) * 0x1000 ≤
          region.1 ∨
        region.1 + region.2 ≤ (calcLoadAddressRange mem pool).1) :
    KernelPlaced file memmapBuf (copyLoadSegments mem pool).memory
        (calcLoadAddressRange mem pool).1 ∧
      ∀ a, memmapBuf ≤ a → a < memmapBuf + kMemmapBufSize →
        (copyLoadSegments mem pool).memory a = memory a := by
  have hfile : Holds mem pool file := hmem ▸ holds_place memory pool file
  have hspan := range_isSpan hfile hend helf
  have hout : ∀ region ∈ [(pool, file.length), (memmapBuf, kMemmapBufSize)], ∀ a,
      InPages mem pool a → ¬ (region.1 ≤ a ∧ a < region.1 + region.2) := by
    intro region hregion a ha
    have := hpages region hregion
    unfold InPages at ha
    omega
  have hpoolOut := hout _ List.mem_cons_self
  have hbufOut := hout _ (List.mem_cons_of_mem _ List.mem_cons_self)
  dsimp only at hpoolOut hbufOut
  refine ⟨⟨kernelInMemory_copyLoadSegments hfile hend helf hpoolOut, ?_, ?_⟩, ?_⟩
  · intro phdr hphdr a ha
    have := hbufOut a (inPages_of_covers hfile hend helf hphdr ha)
    omega
  · intro phdr hphdr hleast
    obtain ⟨first, hfirst, heq⟩ := hspan.first_mem
    have hle := hspan.first_le phdr hphdr
    have hge := hleast first hfirst
    omega
  · intro a hlow hhigh
    rw [copyLoadSegments_outside hfile hend helf hpoolOut fun h => hbufOut a h ⟨hlow, hhigh⟩,
      hmem]
    exact place_outside (by omega)

/-- The kernel file is read into a new buffer, so its pages are apart from it and from the map. -/
theorem loadKernel_meets (hfw : Beside fw device quiet) (helf : IsElfFile (fw.kernelFile start))
    {next : Memory → ℕ → DeviceProgram (BootState F) Outcome}
    (hs : Running fw start [(memmapBuf, kMemmapBufSize)] 0 s)
    (h : ∀ memory' kernelFirstAddr t, Running fw start [] 0 t →
      KernelPlaced (fw.kernelFile start) memmapBuf memory' kernelFirstAddr →
      (∀ a, memmapBuf ≤ a → a < memmapBuf + kMemmapBufSize → memory' a = memory a) →
      Meets (bootContract fw device) (BootEnd fw (fw.mode start) quiet)
        (next memory' kernelFirstAddr) t) :
    Meets (bootContract fw device) (BootEnd fw (fw.mode start) quiet) (loadKernel fw memory next)
      s := by
  unfold loadKernel
  apply meets_answered_haltIfError hfw (call_answered hfw rfl (by rintro _ _ ⟨⟩) hs)
  intro s hs
  have hfile : ∀ {regions : List (ℕ × ℕ)} {t}, Running fw start regions 0 t →
      fw.kernelFile t.firmware = fw.kernelFile start :=
    fun ht => hfw.rules.kernelFile _ _ ht.evolves
  -- the size of the file
  refine meets_called_haltIfError hfw (c := .getInfo) (fun _ => rfl) rfl (fun _ _ => nofun) hs
    fun s hs _ hinfo => ?_
  rw [hfile hs]
  generalize fw.called .getInfo s = s at hinfo
  -- the buffer for the file
  refine meets_called_haltIfError hfw (c := .allocatePool (fw.kernelFile start).length)
    (fun _ => rfl) rfl (fun _ _ => nofun) hinfo fun s hs hsuccess hpool => ?_
  obtain ⟨hfree, hend, hmine⟩ := hfw.rules.allocatePool _ _ hsuccess
  have hapart := hfree _ (hs.inUse _ List.mem_cons_self)
  generalize fw.buffer (.allocatePool (fw.kernelFile start).length) s.firmware = pool
    at hend hmine hapart
  have hboth : Running fw start
      [(pool, (fw.kernelFile start).length), (memmapBuf, kMemmapBufSize)] 0
      (fw.called (.allocatePool (fw.kernelFile start).length) s) := by
    refine { hpool with inUse := fun region hregion => ?_ }
    rcases List.mem_cons.mp hregion with rfl | hregion
    · exact hmine
    · exact hpool.inUse region hregion
  generalize fw.called (.allocatePool (fw.kernelFile start).length) s = s at hboth
  -- the file is read as a whole
  refine meets_called_haltIfError hfw (c := .read (fw.kernelFile start).length)
    (fun _ => rfl) rfl (fun _ _ => nofun) hboth fun s hs _ hread => ?_
  rw [hfile hs, List.take_length]
  generalize hmem : place memory pool (fw.kernelFile start) = mem
  apply meets_print hfw hread
  intro s hs
  -- the pages
  refine meets_called_haltIfError hfw (c := .allocatePages (calcLoadAddressRange mem pool).1
    (numPages (calcLoadAddressRange mem pool))) (fun _ => rfl) rfl (fun _ _ => nofun) hs
    fun s hs hsuccess hpages => ?_
  have hfreePages := hfw.rules.allocatePages _ _ _ hsuccess
  obtain ⟨hplaced, hsame⟩ := kernelPlaced_copy helf hend hapart hmem.symm fun region hregion =>
    hfreePages region (hs.inUse region hregion)
  apply meets_print hfw hpages
  intro s hs
  -- the buffer is given back
  have hnone : Running fw start [] 0 s :=
    { hs with inUse := fun _ hregion => absurd hregion List.not_mem_nil }
  exact meets_answered_haltIfError hfw (call_answered hfw rfl
    (fun _ hregion => absurd hregion List.not_mem_nil) hnone) fun s hs => h _ _ _ hs hplaced hsame

end Load

/-! ## The run -/

section Run

variable {device : BootState F → BootState F → Prop} {quiet : Prop} {s : BootState F} {start : F}
  {regions : List (ℕ × ℕ)} {memmapBuf : ℕ} {memmap : MemoryMap} {memory : Memory} {mode : GopMode}

/-- The file is optional, but a write to it that fails is a reason to halt. -/
theorem saveMemmapFile_meets (hfw : Beside fw device quiet) {iters : List ℕ}
    (hiters : memmap.iterations = some iters) {next : DeviceProgram (BootState F) Outcome}
    (hs : Running fw start regions 0 s)
    (h : ∀ t, Running fw start regions 0 t →
      Meets (bootContract fw device) (BootEnd fw mode quiet) next t) :
    Meets (bootContract fw device) (BootEnd fw mode quiet) (saveMemmapFile fw memmap next) s := by
  unfold saveMemmapFile
  apply meets_call hfw hs rfl (by rintro _ _ ⟨⟩)
  intro status s hs _
  split
  · apply meets_print hfw hs
    intro s hs
    exact meets_print hfw hs fun s hs => h s hs
  · apply meets_answered_haltIfError hfw (saveMemoryMap_answered hfw hiters hs)
    intro s hs
    exact meets_answered_haltIfError hfw (call_answered hfw rfl (by rintro _ _ ⟨⟩) hs) h

/-- The mode is that of the start, and two of its formats are known. -/
theorem openFrameBuffer_meets (hfw : Beside fw device quiet)
    {next : FrameBufferConfig → DeviceProgram (BootState F) Outcome}
    (hpos : ∀ region ∈ regions, 0 < region.2) (hs : Running fw start regions 0 s)
    (h : ∀ format t, pixelFormatOf (fw.mode start).pixelFormat = some format →
      Running fw start regions 0 t → Meets (bootContract fw device)
        (BootEnd fw (fw.mode start) quiet) (next ((fw.mode start).config format)) t) :
    Meets (bootContract fw device) (BootEnd fw (fw.mode start) quiet) (openFrameBuffer fw next)
      s := by
  unfold openFrameBuffer
  apply meets_answered_haltIfError hfw (openGOP_answered hfw hpos hs)
  intro s hs
  refine meets_read (C := bootContract fw device) (Running.stable hfw) hs fun s hs => ?_
  rw [hfw.rules.mode _ _ hs.evolves]
  cases hformat : pixelFormatOf (fw.mode start).pixelFormat with
  | none => exact meets_halt hfw (hs.halting (by omega) (.pixelFormat hformat))
  | some format =>
    apply meets_print hfw hs
    intro s hs
    exact meets_print hfw hs fun s hs => h format s hformat hs

/-- The last step: the map in the buffer has the key under which boot services ended, so it is the
last map of the firmware. -/
theorem enterKernel_meets (hfw : Beside fw device quiet) (helf : IsElfFile (fw.kernelFile start))
    (hne : memmapBuf ≠ 0) (hnoWrap : memmapBuf + kMemmapBufSize < 2 ^ 64)
    (hsnap : Snapshot fw memmapBuf memmap memory start) {kernelFirstAddr : ℕ}
    (hkernel : KernelPlaced (fw.kernelFile start) memmapBuf memory kernelFirstAddr)
    {format : PixelFormat} (hformat : pixelFormatOf (fw.mode start).pixelFormat = some format)
    (hs : Running fw start regions 0 s) :
    Meets (bootContract fw device) (BootEnd fw (fw.mode start) quiet)
      (enterKernel fw ((fw.mode start).config format) memmap memory kernelFirstAddr) s := by
  unfold enterKernel
  apply (exitBootServicesWithRetry_answer hfw hne hnoWrap hsnap hs).bind
  rintro ⟨status, memmap', memory'⟩ s hanswer
  dsimp only
  rcases hanswer with ⟨hstatus, taken, htaken, hsnap', hs, hout⟩ | ⟨herror, hs⟩
  · dsimp only at hstatus hsnap' hs hout
    rw [hstatus]
    unfold haltIfError
    rw [if_neg (by decide)]
    have hin : KernelInMemory (fw.kernelFile start) memory' := hkernel.inMemory.congr
      fun phdr hphdr a ha => hout a (hkernel.apart phdr hphdr a ha)
    refine meets_pure (C := bootContract fw device) (Exited.stable hfw) hs fun t ht => ?_
    have hevolves := htaken.trans ht.evolves
    have hfile := hfw.rules.kernelFile _ _ hevolves
    have hmode := hfw.rules.mode _ _ hevolves
    refine ⟨⟨ht.exited, ?_, ⟨format, ?_, ?_⟩, ?_, ?_, ht.orderly⟩, fun _ => ht.refusals⟩
    · -- boot services were ended under the key of the map in the buffer
      rw [hfw.rules.mapKey _ _ ht.evolves (ht.mapKey.trans hsnap'.mapKey)]
      exact hsnap'.describes.descriptors_eq (hsnap'.buffer.symm ▸ hsnap'.holds)
    · rw [hmode]
      exact hformat
    · rw [hmode]
    · rw [hfile]
      exact hin
    · rw [hfile]
      intro phdr hphdr hoffset hfilesz hleast
      rw [hkernel.first phdr hphdr hleast]
      exact readLE_entry hin helf hphdr hoffset hfilesz
  · exact meets_haltIfError hfw (fun _ => hs) fun hnone =>
      absurd herror (by dsimp only; rw [hnone]; decide)

/-- The whole boot loader, from the state in which the firmware starts it. -/
theorem uefiMain_meets (hfw : Beside fw device quiet) (hboot : Booted fw memmapBuf s)
    (helf : IsElfFile (fw.kernelFile s.firmware)) (memory : Memory) :
    Meets (bootContract fw device) (BootEnd fw (fw.mode s.firmware) quiet)
      (uefiMain fw memmapBuf memory) s := by
  have hstart : Running fw s.firmware [(memmapBuf, kMemmapBufSize)] 0 s := by
    refine ⟨.refl, hboot.exited, fun region hregion => ?_, ?_, ?_, fun _ e he => ?_⟩
    · rw [List.mem_singleton.mp hregion]
      exact hboot.inUse
    · rw [hboot.calls]
      exact .nil
    · rw [hboot.calls]
      rfl
    · rw [hboot.calls] at he
      exact absurd he List.not_mem_nil
  unfold uefiMain
  apply meets_print hfw hstart
  intro t ht
  apply (getMemorymap_gotMap hfw ⟨kMemmapBufSize, memmapBuf, 0, 0, 0, 0⟩ rfl rfl hboot.buffer
    hboot.noWrap ht).bind
  rintro ⟨status, memmap, memory⟩ t hgot
  dsimp only
  rcases hgot with ⟨hstatus, taken, htaken, hsnap, ht, -, -⟩ | ⟨herror, ht, hfailed⟩
  · dsimp only at hstatus hsnap
    rw [hstatus]
    rw [← hfw.rules.kernelFile _ _ htaken] at helf
    rw [← hfw.rules.mode _ _ htaken]
    refine meets_haltIfError hfw (fun herror => absurd herror (by decide)) fun _ => ?_
    apply meets_answered_haltIfError hfw (openRootDir_answered hfw ht)
    intro t ht
    -- the loop over the map ends
    obtain ⟨iters, hiters, -⟩ := Option.map_eq_some_iff.mp
      (hsnap.describes.descriptors_eq (hsnap.buffer.symm ▸ hsnap.holds))
    apply saveMemmapFile_meets hfw hiters ht
    intro t ht
    apply openFrameBuffer_meets hfw (List.forall_mem_singleton.mpr (Nat.zero_lt_succ _)) ht
    intro format t hformat ht
    apply loadKernel_meets hfw helf ht
    intro memory' kernelFirstAddr t ht hkernel hsame
    exact enterKernel_meets hfw helf hboot.buffer hboot.noWrap (hsnap.congr hsame) hkernel hformat
      ht
  · exact meets_haltIfError hfw (fun herror => ht.halting (by omega) (.callFailed herror hfailed))
      fun hnone => absurd herror (by dsimp only; rw [hnone]; decide)

end Run

end TommyOS.BootLoader
