import TommyOS.BootLoader.UefiMainTheorems

/-!
# The hand-over

The boot loader beside any firmware that keeps its rules, in every interleaving, and a machine
whose memory map changes with each allocation, as that of a real one does.
-/

namespace TommyOS.BootLoader

open ByteRecords DeviceProgram Relation

section Handover

variable {F : Type} {fw : Firmware F} {s₀ : BootState F} {memmapBuf : ℕ} {memory : Memory}

/-- **The hand-over.** Whatever the firmware does within its rules: every call is made while boot
services are there, and behind a refused `ExitBootServices` only the memory allocation services are
called, but for the last message; when the kernel is entered, boot services have ended, its memory
map is the last one of the firmware, and it is in memory; and when the boot loader halts, it has a
reason. -/
theorem uefiMain_hands_over (hrules : fw.Rules) (hboot : Booted fw memmapBuf s₀)
    (helf : IsElfFile (fw.kernelFile s₀.firmware))
    {c : DeviceProgram (BootState F) Outcome × BootState F}
    (hc : (system (BootStep fw) (uefiMain fw memmapBuf memory) (· = s₀)).Reachable c) :
    (∀ d, ProgramStep c d →
      d.2 = c.2 ∨ ∃ call, d.2 = fw.called call c.2 ∧ CallAllowed fw c.2 call) ∧
      ∀ outcome, c.1 = done outcome → BootPost fw (fw.mode s₀.firmware) outcome c.2 := by
  have hfw : Beside fw (BootStep fw) False := ⟨hrules, fun _ _ h => h, False.elim⟩
  have hmeets : Meets (bootContract fw (BootStep fw)) (BootEnd fw (fw.mode s₀.firmware) False)
      c.1 c.2 :=
    Meets.reachable (C := bootContract fw (BootStep fw))
      (fun s hs => hs ▸ uefiMain_meets hfw hboot helf memory) hc
  constructor
  · intro d hstep
    exact hmeets.guarantee hstep
  · intro outcome hdone
    rw [hdone] at hmeets
    exact hmeets.at_end.1

/-- **The kernel is entered.** In every fair run beside a firmware that leaves the memory map alone
after it has refused `ExitBootServices`, in which no other call fails, the boot loader ends in the
kernel, however often the map has changed before. -/
theorem uefiMain_enters_kernel (hrules : fw.Rules) (hboot : Booted fw memmapBuf s₀)
    (helf : IsElfFile (fw.kernelFile s₀.firmware))
    {tr : ℕ → DeviceProgram (BootState F) Outcome × BootState F}
    (hstart : tr 0 = (uefiMain fw memmapBuf memory, s₀)) (hrun : FairRun (QuietStep fw) tr)
    (hformat : pixelFormatOf (fw.mode s₀.firmware).pixelFormat ≠ none)
    (hcalls : ∀ n status, Failed status (tr n).2.calls → efiError status = false) :
    ∃ n entryAddr config memmap memory',
      (tr n).1 = done (.entered entryAddr config memmap memory') ∧
        HandedOver fw entryAddr config memmap memory' (tr n).2 := by
  have hfw : Beside fw (QuietStep fw) True := ⟨hrules, fun _ _ h => h.1, fun _ _ _ h => h⟩
  have hmeets : Meets (bootContract fw (QuietStep fw)) (BootEnd fw (fw.mode s₀.firmware) True)
      (tr 0).1 (tr 0).2 := by
    rw [hstart]
    exact uefiMain_meets hfw hboot helf memory
  obtain ⟨n, outcome, hdone⟩ := FairRun.finishes (C := bootContract fw (QuietStep fw)) hrun
    (fun _ _ hanswers => hanswers.elim) hmeets
  have hend : BootEnd fw (fw.mode s₀.firmware) True outcome (tr n).2 := by
    have hn := FairRun.meets (C := bootContract fw (QuietStep fw)) hrun hmeets n
    rw [hdone] at hn
    exact hn.at_end
  obtain ⟨hpost, hrefusals⟩ := hend
  cases outcome with
  | entered entryAddr config memmap memory' =>
    exact ⟨n, entryAddr, config, memmap, memory', hdone, hpost⟩
  | halted message argument =>
    -- none of the reasons to halt is there
    exfalso
    have honce := hrefusals trivial
    generalize hs : (tr n).2 = s at hpost honce
    cases hpost with
    | callFailed herror hfailed =>
      have hnone := hcalls n _ (hs ▸ hfailed)
      rw [herror] at hnone
      exact Bool.noConfusion hnone
    | refusedTwice htwice => omega
    | pixelFormat hnone => exact hformat hnone

end Handover

/-! ## A machine

A kernel of one segment, and a firmware with one region of free memory in front of what belongs to
the boot loader and to itself. Each allocation changes the map and its key, and so may a timer. -/

/-- An ELF file of 120 bytes: its header, and one program header for the file itself, which takes a
page in memory. -/
def smallKernel : List (BitVec 8) :=
  leBytes 24 0x00010102464c457f ++ leBytes 8 0x200040 ++ leBytes 8 64 ++ leBytes 14 0 ++
    leBytes 2 56 ++ leBytes 8 1 ++
    (leBytes 8 1 ++ leBytes 8 0 ++ leBytes 16 0x200000 ++ leBytes 8 120 ++ leBytes 16 0x1000)

theorem segments_smallKernel :
    segments smallKernel = [⟨PT_LOAD, 0, 0x200000, 120, 0x1000⟩] := by decide +kernel

theorem isElfFile_smallKernel : IsElfFile smallKernel := by
  have hsegments := segments_smallKernel
  refine ⟨by decide +kernel, by decide +kernel, by decide +kernel, ?_, ?_, ?_, ?_, ?_⟩
  · rw [hsegments]
    exact List.cons_ne_nil _ _
  · rw [hsegments, List.forall_mem_singleton]
    decide
  · rw [hsegments, List.forall_mem_singleton]
    decide
  · rw [hsegments]
    exact List.pairwise_singleton _ _
  · rw [hsegments, List.forall_mem_singleton]
    decide +kernel

/-- The firmware has a key for its map, the regions it gave to the boot loader, and those its timers
took. -/
structure SmallState where
  key : ℕ
  inUse : List (ℕ × ℕ)
  timers : List (ℕ × ℕ)
  exited : Bool

namespace SmallState

variable (s : SmallState)

/-- No region of the boot loader is met. -/
def isFree (addr size : ℕ) : Bool :=
  s.inUse.all fun region => decide (addr + size ≤ region.1 ∨ region.1 + region.2 ≤ addr)

/-- A region with the type of the data of a loader or of boot services. -/
def descriptor (type : BitVec 32) (region : ℕ × ℕ) : EfiMemoryDescriptor :=
  ⟨type, 0, BitVec.ofNat 64 region.1, 0, BitVec.ofNat 64 ((region.2 + 0xfff) / 0x1000), 0xf, []⟩

/-- The free memory, then what is in use, which the real map would have apart. -/
def memoryMap : List EfiMemoryDescriptor :=
  descriptor 7 (0, 0x1000000) :: (s.inUse.map (descriptor 2) ++ s.timers.map (descriptor 4))

/-- A call fails where there is no room: for the map in the buffer, or in memory. -/
def status : BootCall → EfiStatus
  | .getMemoryMap size =>
    if size < (mapBytes s.memoryMap).length then EFI_BUFFER_TOO_SMALL else EFI_SUCCESS
  | .exitBootServices key => if key = s.key then EFI_SUCCESS else EFI_INVALID_PARAMETER
  | .allocatePool size =>
    if s.isFree 0x800000 size ∧ 0x800000 + size ≤ 2 ^ 64 then EFI_SUCCESS else EFI_OUT_OF_RESOURCES
  | .allocatePages addr pages =>
    if s.isFree addr (pages * 0x1000) then EFI_SUCCESS else EFI_NOT_FOUND
  | .locateHandleBuffer => if s.isFree 0x700000 8 then EFI_SUCCESS else EFI_OUT_OF_RESOURCES
  | _ => EFI_SUCCESS

/-- The buffers are always at the same place. -/
def buffer : BootCall → ℕ
  | .locateHandleBuffer => 0x700000
  | _ => 0x800000

/-- A region is given to the boot loader. -/
def give (region : ℕ × ℕ) : SmallState := { s with key := s.key + 1, inUse := region :: s.inUse }

/-- Each allocation changes the map, and so the key. -/
def next : BootCall → SmallState
  | .exitBootServices key => if key = s.key then { s with exited := true } else s
  | .allocatePool size => s.give (0x800000, size)
  | .allocatePages addr pages => s.give (addr, pages * 0x1000)
  | .locateHandleBuffer => s.give (0x700000, 8)
  | .freePool addr =>
    { s with key := s.key + 1, inUse := s.inUse.filter fun region => region.1 ≠ addr }
  | _ => s

end SmallState

/-- This firmware, whose timers may take memory as long as boot services are there. -/
def smallFirmware : Firmware SmallState where
  memoryMap s := s.memoryMap
  mapKey s := s.key
  descriptorSize _ := 40
  descriptorVersion _ := 1
  mode _ := ⟨0x80000000, 800, 800, 600, .blueGreenRedReserved8BitPerColor⟩
  kernelFile _ := smallKernel
  inUse s := s.inUse
  exited s := s.exited
  status c s := s.status c
  buffer c _ := SmallState.buffer c
  memoryMapAnswer s map memory :=
    if map.mapSize < (mapBytes s.memoryMap).length then
      ({ map with mapSize := (mapBytes s.memoryMap).length }, memory)
    else
      (⟨map.bufferSize, map.buffer, (mapBytes s.memoryMap).length, s.key, 40, 1⟩,
        place memory map.buffer (mapBytes s.memoryMap))
  next c s := s.next c
  background s t := t = s ∨ s.exited = false ∧
    ∃ region, t = { s with key := s.key + 1, timers := region :: s.timers }

section SmallFirmware

variable {s t : SmallState}

theorem SmallState.next_exitBootServices (s : SmallState) (key : ℕ) :
    s.next (.exitBootServices key) = if key = s.key then { s with exited := true } else s := rfl

/-- A call changes the map only with its key. -/
theorem smallState_next (c : BootCall) (s : SmallState) :
    s.key < (s.next c).key ∨ (s.next c).key = s.key ∧ (s.next c).memoryMap = s.memoryMap := by
  cases c with
  | exitBootServices key =>
    right
    rw [s.next_exitBootServices]
    by_cases hkey : key = s.key
    · rw [if_pos hkey]
      exact ⟨rfl, rfl⟩
    · rw [if_neg hkey]
      exact ⟨rfl, rfl⟩
  | locateHandleBuffer => exact .inl (Nat.lt_succ_self _)
  | allocatePool size => exact .inl (Nat.lt_succ_self _)
  | allocatePages addr pages => exact .inl (Nat.lt_succ_self _)
  | freePool addr => exact .inl (Nat.lt_succ_self _)
  | _ => exact .inr ⟨rfl, rfl⟩

/-- The key grows with each change of the map. -/
theorem smallState_evolves (h : smallFirmware.Evolves s t) :
    s.key < t.key ∨ t.key = s.key ∧ t.memoryMap = s.memoryMap := by
  induction h with
  | refl => exact .inr ⟨rfl, rfl⟩
  | @tail u _ _ hstep ih =>
    rcases hstep with (rfl | ⟨-, region, rfl⟩) | ⟨c, rfl⟩
    · exact ih
    · dsimp only
      omega
    · change s.key < (u.next c).key ∨ (u.next c).key = s.key ∧ (u.next c).memoryMap = s.memoryMap
      rcases smallState_next c u with hlt | ⟨hkey, hmap⟩
      · omega
      · rw [hkey, hmap]
        exact ih

theorem isFree_smallFirmware {addr size : ℕ} (h : s.isFree addr size = true) :
    smallFirmware.IsFree s addr size := by
  intro region hregion
  exact of_decide_eq_true (List.all_eq_true.mp h region hregion)

/-- A call that fails unless there is room has found room when it succeeds. -/
theorem of_not_efiError {p : Prop} [Decidable p] {status : EfiStatus}
    (herror : efiError status = true)
    (h : efiError (if p then EFI_SUCCESS else status) = false) : p := by
  by_contra hp
  rw [if_neg hp, herror] at h
  exact Bool.noConfusion h

/-- It keeps the rules, each of which is one case per call or a step of a timer. -/
theorem smallFirmware_rules : smallFirmware.Rules where
  mapKey s t h hkey := by
    rcases smallState_evolves h with hlt | ⟨-, hmap⟩
    · exact absurd hkey (Nat.ne_of_gt hlt)
    · exact hmap
  descriptorSize s desc hdesc := by
    have hbehind : desc.behind = [] := by
      rcases List.mem_cons.mp hdesc with rfl | hdesc
      · rfl
      · rcases List.mem_append.mp hdesc with hdesc | hdesc
        · obtain ⟨region, -, rfl⟩ := List.mem_map.mp hdesc
          rfl
        · obtain ⟨region, -, rfl⟩ := List.mem_map.mp hdesc
          rfl
    rw [EfiMemoryDescriptor.length_encode, hbehind]
    rfl
  descriptorSize_pos _ := Nat.zero_lt_succ _
  kernelFile _ _ _ := rfl
  mode _ _ _ := rfl
  exited s t h := by
    rcases h with rfl | ⟨-, region, rfl⟩
    · rfl
    · rfl
  exited_next c s h := by
    cases c with
    | exitBootServices key => exact Bool.noConfusion h
    | _ => rfl
  afterExit s t hexited h := by
    rcases h with rfl | ⟨hnot, -⟩
    · rfl
    · exact absurd hexited (by rw [show smallFirmware.exited s = s.exited from rfl, hnot]; decide)
  inUse s t h region hregion := by
    rcases h with rfl | ⟨-, _, rfl⟩
    · exact hregion
    · exact hregion
  inUse_next c s region hregion hne := by
    change region ∈ (s.next c).inUse
    cases c with
    | exitBootServices key =>
      rw [s.next_exitBootServices]
      by_cases hkey : key = s.key
      · rw [if_pos hkey]
        exact hregion
      · rw [if_neg hkey]
        exact hregion
    | freePool addr =>
      refine List.mem_filter.mpr ⟨hregion, decide_eq_true fun heq => hne ?_⟩
      rw [heq]
    | locateHandleBuffer => exact List.mem_cons_of_mem _ hregion
    | allocatePool size => exact List.mem_cons_of_mem _ hregion
    | allocatePages addr pages => exact List.mem_cons_of_mem _ hregion
    | _ => exact hregion
  getMemoryMap _ _ _ := rfl
  memoryMapAnswer s map memory h := by
    change efiError (if map.mapSize < (mapBytes s.memoryMap).length then EFI_BUFFER_TOO_SMALL
      else EFI_SUCCESS) = _ at h
    by_cases hlarge : map.mapSize < (mapBytes s.memoryMap).length
    · rw [if_pos hlarge] at h
      exact absurd h (by decide)
    · exact if_neg hlarge
  mapKey_getMemoryMap _ _ _ := rfl
  locateHandleBuffer _ h := isFree_smallFirmware (of_not_efiError (by decide) h)
  allocatePool _ _ h := by
    obtain ⟨hfree, hend⟩ := of_not_efiError (by decide) h
    exact ⟨isFree_smallFirmware hfree, hend, List.mem_cons_self⟩
  allocatePages _ _ _ h := isFree_smallFirmware (of_not_efiError (by decide) h)
  exit s _ := by
    have hnext : s.next (.exitBootServices s.key) = { s with exited := true } := if_pos rfl
    refine ⟨if_pos rfl, ?_, ?_⟩
    · exact congrArg SmallState.exited hnext
    · change (s.next (.exitBootServices s.key)).key = s.key
      rw [hnext]
  exit_refused key s hexited hne := by
    have hnext : s.next (.exitBootServices key) = s := if_neg hne
    exact ⟨if_neg hne, (congrArg SmallState.exited hnext).trans hexited⟩

/-- The buffer for the map lies on the stack of the boot loader. -/
def smallStart : BootState SmallState := ⟨⟨5, [(0x900000, kMemmapBufSize)], [], false⟩, []⟩

theorem booted_smallStart : Booted smallFirmware 0x900000 smallStart where
  exited := rfl
  inUse := List.mem_cons_self
  calls := rfl
  buffer := by decide
  noWrap := by decide

/-- The first `ExitBootServices` is refused, since the map has changed with each allocation. -/
def smallRun : ℕ → DeviceProgram (BootState SmallState) Outcome × BootState SmallState :=
  eagerRun id (uefiMain smallFirmware 0x900000 fun _ => 0#8, smallStart)

def isEntered : DeviceProgram (BootState SmallState) Outcome → Bool
  | .done (.entered _ _ _ _) => true
  | _ => false

/-- The run, evaluated: 28 steps, one refusal. -/
theorem smallRun_entered :
    isEntered (smallRun 28).1 = true ∧ refusals (smallRun 28).2.calls = 1 := by decide +kernel

theorem smallRun_done : ∃ entryAddr config memmap memory,
    (smallRun 28).1 = done (.entered entryAddr config memmap memory) := by
  have hentered := smallRun_entered.1
  cases hp : (smallRun 28).1 with
  | done outcome =>
    rw [hp] at hentered
    cases outcome with
    | entered entryAddr config memmap memory => exact ⟨entryAddr, config, memmap, memory, rfl⟩
    | halted message argument => cases hentered
  | access effect next =>
    rw [hp] at hentered
    cases hentered
  | await ready next =>
    rw [hp] at hentered
    cases hentered

theorem bootStep_refl (s : BootState SmallState) : BootStep smallFirmware s s :=
  ⟨.inl rfl, rfl⟩

theorem smallRun_reachable (n : ℕ) :
    (system (BootStep smallFirmware) (uefiMain smallFirmware 0x900000 fun _ => 0#8)
      (· = smallStart)).Reachable (smallRun n) :=
  eagerRun_reachable bootStep_refl (· = smallStart) rfl _ n

theorem quietStep_refl (s : BootState SmallState) : QuietStep smallFirmware s s :=
  ⟨bootStep_refl s, fun _ => rfl⟩

theorem smallRun_zero :
    smallRun 0 = (uefiMain smallFirmware 0x900000 fun _ => 0#8, smallStart) := rfl

/-- The timers are quiet in it, and the boot loader goes on in every step. -/
theorem smallRun_fair : FairRun (QuietStep smallFirmware) smallRun := eagerRun_fair quietStep_refl _

theorem smallMode_format :
    pixelFormatOf (smallFirmware.mode smallStart.firmware).pixelFormat ≠ none :=
  Option.some_ne_none _

/-- No other call fails, up to the end and from then on. -/
theorem smallRun_calls (n : ℕ) :
    ∀ call ∈ (smallRun n).2.calls, call.1.isExit = false → efiError call.2 = false := by
  have hupto : ∀ n ∈ List.range 29, ∀ call ∈ (smallRun n).2.calls,
      call.1.isExit = false → efiError call.2 = false := by
    decide +kernel
  by_cases hn : n < 29
  · exact hupto n (List.mem_range.mpr hn)
  · obtain ⟨_, _, _, _, hdone⟩ := smallRun_done
    have hend : smallRun n = smallRun 28 := eagerRun_done hdone (by omega)
    rw [hend]
    exact hupto 28 (by decide)

/-- So the only call that fails is `ExitBootServices`. -/
theorem smallRun_failed (n : ℕ) (status : EfiStatus) (h : Failed status (smallRun n).2.calls) :
    efiError status = false := by
  obtain ⟨c, hcall, hmem⟩ := h
  exact smallRun_calls n (c, status) hmem hcall

theorem uefiMain_hands_over_example : ∃ entryAddr config memmap memory,
    (smallRun 28).1 = done (.entered entryAddr config memmap memory) ∧
      HandedOver smallFirmware entryAddr config memmap memory (smallRun 28).2 := by
  obtain ⟨entryAddr, config, memmap, memory, hdone⟩ := smallRun_done
  have hends := (uefiMain_hands_over smallFirmware_rules booted_smallStart isElfFile_smallKernel
    (smallRun_reachable 28)).2
  exact ⟨entryAddr, config, memmap, memory, hdone, hends _ hdone⟩

theorem uefiMain_enters_kernel_example : ∃ n entryAddr config memmap memory,
    (smallRun n).1 = done (.entered entryAddr config memmap memory) ∧
      HandedOver smallFirmware entryAddr config memmap memory (smallRun n).2 :=
  uefiMain_enters_kernel smallFirmware_rules booted_smallStart isElfFile_smallKernel smallRun_zero
    smallRun_fair smallMode_format smallRun_failed

end SmallFirmware

end TommyOS.BootLoader
