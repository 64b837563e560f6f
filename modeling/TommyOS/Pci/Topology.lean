import TommyOS.Pci.Pci
import TommyOS.Lib.DepthFirstWalk
import Mathlib.Tactic.IntervalCases

/-!
# Which functions a configuration space has

The functions of a bus, the buses the scan starts from and those a bridge leads to, read off
the registers themselves. These are the definitions the scan is measured against.
-/

namespace TommyOS.Pci

/-- A bus, device and function number. -/
structure FunctionId where
  bus : BitVec 8
  device : BitVec 8
  function : BitVec 8
deriving DecidableEq

namespace FunctionId

variable (space : ConfigSpace) (f : FunctionId)

def register (n : BitVec 6) : BitVec 32 :=
  space f.bus (f.device.setWidth 5) (f.function.setWidth 3) n

/-- There is a function: its vendor ID is not all ones. -/
def Present : Prop := (f.register space 0).extractLsb' 0 16 ≠ 0xffff#16

instance : Decidable (f.Present space) := inferInstanceAs (Decidable (_ ≠ _))

def headerType : BitVec 8 := (f.register space 3).extractLsb' 16 8

/-- The multi-function bit of the header type. -/
def multiFunction : Bool := (f.headerType space).getLsbD 7

def classCode : ClassCode where
  base := (f.register space 2).extractLsb' 24 8
  sub := (f.register space 2).extractLsb' 16 8
  interface := (f.register space 2).extractLsb' 8 8

/-- A PCI-to-PCI bridge. -/
def isBridge : Bool := (f.classCode space).isMatch 0x06#8 0x04#8

def secondaryBus : BitVec 8 := (f.register space 6).extractLsb' 8 8

/-- The bus a bridge leads to. -/
def nextBus : Option (BitVec 8) := if f.isBridge space then some (f.secondaryBus space) else none

/-- The entry the table has for a function. -/
def entry : Device := ⟨f.bus, f.device, f.function, f.headerType space, f.classCode space⟩

/-- On a bus: function 0 of a present device, or another function that is present while
function 0 has the multi-function bit. -/
def OnBus : Prop :=
  f.device.toNat < 32 ∧ f.function.toNat < 8 ∧ Present space ⟨f.bus, f.device, 0#8⟩ ∧
    (f.function = 0#8 ∨ multiFunction space ⟨f.bus, f.device, 0#8⟩ = true ∧ f.Present space)

end FunctionId

/-- The function a table entry is about. -/
def Device.id (d : Device) : FunctionId := ⟨d.bus, d.device, d.function⟩

/-- The buses the scan starts from: bus 0 if 00:00.0 is a single function, otherwise every
bus whose number is that of a present function 00:00.n. -/
def RootBus (space : ConfigSpace) (n : BitVec 8) : Prop :=
  if FunctionId.multiFunction space ⟨0#8, 0#8, 0#8⟩ then
    n.toNat < 8 ∧ FunctionId.Present space ⟨0#8, 0#8, n⟩
  else
    n = 0#8

/-- The least set of buses with the roots in it and the secondary bus of each of its
bridges. -/
inductive ReachableBus (space : ConfigSpace) : BitVec 8 → Prop where
  | root {n : BitVec 8} : RootBus space n → ReachableBus space n
  | bridge {f : FunctionId} : ReachableBus space f.bus → f.OnBus space → f.isBridge space = true →
      ReachableBus space (f.secondaryBus space)

/-- The functions on a reachable bus. -/
def Reachable (space : ConfigSpace) (f : FunctionId) : Prop :=
  ReachableBus space f.bus ∧ f.OnBus space

/-! ## In the order of the scan -/

/-- The functions of a device, function 0 first. -/
def functionsOfDevice (space : ConfigSpace) (bus device : BitVec 8) : List FunctionId :=
  if FunctionId.Present space ⟨bus, device, 0#8⟩ then
    ⟨bus, device, 0#8⟩ ::
      if FunctionId.multiFunction space ⟨bus, device, 0#8⟩ then
        ((counter 1 7).map fun function => ⟨bus, device, function⟩).filter (·.Present space)
      else
        []
  else
    []

/-- The functions on a bus. -/
def functionsOn (space : ConfigSpace) (bus : BitVec 8) : List FunctionId :=
  (counter 0 32).flatMap (functionsOfDevice space bus)

/-- The buses that `ScanAllBus` starts from. -/
def rootBuses (space : ConfigSpace) : List (BitVec 8) :=
  if FunctionId.multiFunction space ⟨0#8, 0#8, 0#8⟩ then
    (counter 0 8).filter fun n => FunctionId.Present space ⟨0#8, 0#8, n⟩
  else
    [0#8]

/-- The depth-first walk of the buses from the roots, down to a depth. -/
def survey (space : ConfigSpace) (depth : ℕ) : List (DepthFirstWalk.Visit (BitVec 8) FunctionId) :=
  (rootBuses space).flatMap
    (DepthFirstWalk.walk (functionsOn space) (FunctionId.nextBus space) depth)

/-! ## The lists hold what they should -/

variable {space : ConfigSpace}

/-- The values of a counter. -/
theorem mem_counter {first count : ℕ} (h : first + count ≤ 256) {x : BitVec 8} :
    x ∈ counter first count ↔ first ≤ x.toNat ∧ x.toNat < first + count := by
  unfold counter
  rw [List.mem_map]
  constructor
  · rintro ⟨i, hi, rfl⟩
    have hi' := List.mem_range'_1.mp hi
    rw [BitVec.toNat_ofNat, Nat.mod_eq_of_lt (by omega)]
    exact hi'
  · intro hx
    have hx' : BitVec.ofNat 8 x.toNat = x := by rw [BitVec.ofNat_toNat, BitVec.setWidth_eq]
    exact ⟨x.toNat, List.mem_range'_1.mpr hx, hx'⟩

theorem nodup_counter {first count : ℕ} (h : first + count ≤ 256) :
    (counter first count).Nodup := by
  unfold counter
  refine List.Nodup.map_on (fun i hi j hj hij => ?_) (List.nodup_range' 1)
  have hi' := List.mem_range'_1.mp hi
  have hj' := List.mem_range'_1.mp hj
  have hval : (BitVec.ofNat 8 i).toNat = (BitVec.ofNat 8 j).toNat := congrArg BitVec.toNat hij
  rwa [BitVec.toNat_ofNat, BitVec.toNat_ofNat, Nat.mod_eq_of_lt (by omega),
    Nat.mod_eq_of_lt (by omega)] at hval

/-- The functions of a device that are on a bus. -/
theorem mem_functionsOfDevice {bus device : BitVec 8} {f : FunctionId} (hd : device.toNat < 32) :
    f ∈ functionsOfDevice space bus device ↔ f.bus = bus ∧ f.device = device ∧ f.OnBus space := by
  obtain ⟨fbus, fdevice, function⟩ := f
  unfold functionsOfDevice FunctionId.OnBus
  by_cases hpresent : FunctionId.Present space ⟨bus, device, 0#8⟩
  · rw [if_pos hpresent, List.mem_cons]
    constructor
    -- function 0 is scanned first, and the others only for a multi-function device
    · rintro (hzero | hother)
      · obtain ⟨rfl, rfl, rfl⟩ := FunctionId.mk.injEq .. ▸ hzero
        exact ⟨rfl, rfl, hd, Nat.zero_lt_succ 7, hpresent, .inl rfl⟩
      · by_cases hmulti : FunctionId.multiFunction space ⟨bus, device, 0#8⟩ = true
        · rw [if_pos hmulti, List.mem_filter, List.mem_map] at hother
          obtain ⟨⟨x, hx, heq⟩, hx'⟩ := hother
          obtain ⟨rfl, rfl, rfl⟩ := FunctionId.mk.injEq .. ▸ heq
          have hrange := (mem_counter (by decide)).mp hx
          have hlt : x.toNat < 8 := by omega
          exact ⟨rfl, rfl, hd, hlt, hpresent, .inr ⟨hmulti, of_decide_eq_true hx'⟩⟩
        · rw [if_neg hmulti] at hother
          exact absurd hother List.not_mem_nil
    · rintro ⟨rfl, rfl, -, hfunction, -, hkind⟩
      by_cases hzero : function = 0#8
      · exact .inl (by rw [hzero])
      · rcases hkind with h | ⟨hmulti, hf⟩
        · exact absurd h hzero
        · have hne : function.toNat ≠ 0 := fun h => hzero (BitVec.eq_of_toNat_eq h)
          right
          rw [if_pos hmulti, List.mem_filter, List.mem_map]
          exact ⟨⟨function, (mem_counter (by decide)).mpr ⟨Nat.pos_of_ne_zero hne, hfunction⟩, rfl⟩,
            decide_eq_true hf⟩
  · rw [if_neg hpresent]
    constructor
    · intro h
      exact absurd h List.not_mem_nil
    · rintro ⟨rfl, rfl, -, -, h, -⟩
      exact absurd h hpresent

theorem mem_functionsOn {bus : BitVec 8} {f : FunctionId} :
    f ∈ functionsOn space bus ↔ f.bus = bus ∧ f.OnBus space := by
  unfold functionsOn
  rw [List.mem_flatMap]
  constructor
  · rintro ⟨device, hd, hf⟩
    have hrange := (mem_counter (by decide)).mp hd
    obtain ⟨hbus, -, hon⟩ := (mem_functionsOfDevice (by omega)).mp hf
    exact ⟨hbus, hon⟩
  · rintro ⟨hbus, hon⟩
    have hd : f.device.toNat < 32 := hon.1
    exact ⟨f.device, (mem_counter (by decide)).mpr ⟨Nat.zero_le _, by omega⟩,
      (mem_functionsOfDevice hd).mpr ⟨hbus, rfl, hon⟩⟩

theorem nodup_functionsOfDevice (bus device : BitVec 8) :
    (functionsOfDevice space bus device).Nodup := by
  unfold functionsOfDevice
  split
  · split
    · refine List.nodup_cons.mpr ⟨fun h => ?_, List.Nodup.filter _ (List.Nodup.map ?_
        (nodup_counter (by decide)))⟩
      · -- the other functions are numbered from 1 on
        obtain ⟨x, hx, heq⟩ := List.mem_map.mp (List.mem_filter.mp h).1
        obtain ⟨-, -, rfl⟩ := FunctionId.mk.injEq .. ▸ heq
        exact absurd ((mem_counter (by decide)).mp hx).1 (by decide)
      · intro x y hxy
        exact congrArg FunctionId.function hxy
    · exact List.nodup_singleton _
  · exact List.nodup_nil

/-- No function is on a bus twice. -/
theorem nodup_functionsOn (bus : BitVec 8) : (functionsOn space bus).Nodup := by
  unfold functionsOn
  rw [List.nodup_flatMap]
  refine ⟨fun device _ => nodup_functionsOfDevice bus device, ?_⟩
  refine List.Pairwise.imp_of_mem (fun {a b} ha hb hab => ?_) (nodup_counter (by decide))
  have ha' := (mem_counter (by decide)).mp ha
  have hb' := (mem_counter (by decide)).mp hb
  intro f hfa hfb
  obtain ⟨-, hdevice, -⟩ := (mem_functionsOfDevice (by omega)).mp hfa
  obtain ⟨-, hdevice', -⟩ := (mem_functionsOfDevice (by omega)).mp hfb
  exact hab (hdevice.symm.trans hdevice')

theorem mem_rootBuses {n : BitVec 8} : n ∈ rootBuses space ↔ RootBus space n := by
  unfold rootBuses RootBus
  split
  · rw [List.mem_filter, mem_counter (by decide), decide_eq_true_iff]
    constructor
    · rintro ⟨⟨-, hlt⟩, hpresent⟩
      exact ⟨by omega, hpresent⟩
    · rintro ⟨hlt, hpresent⟩
      exact ⟨⟨Nat.zero_le _, by omega⟩, hpresent⟩
  · exact List.mem_singleton

theorem nodup_rootBuses : (rootBuses space).Nodup := by
  unfold rootBuses
  split
  · exact List.Nodup.filter _ (nodup_counter (by decide))
  · exact List.nodup_singleton _

/-- The bus behind a bridge. -/
theorem nextBus_eq_some {f : FunctionId} {n : BitVec 8} :
    f.nextBus space = some n ↔ f.isBridge space = true ∧ f.secondaryBus space = n := by
  unfold FunctionId.nextBus
  split
  · next h => rw [Option.some_inj]; exact ⟨fun heq => ⟨h, heq⟩, fun heq => heq.2⟩
  · next h => exact ⟨fun heq => absurd heq (by simp), fun heq => absurd heq.1 h⟩

/-- The reachable buses are those the walk can come to. -/
theorem reached_iff_reachableBus {n : BitVec 8} :
    DepthFirstWalk.Reached (functionsOn space) (FunctionId.nextBus space) (rootBuses space) n ↔
      ReachableBus space n := by
  constructor
  · rintro ⟨r, hr, hpath⟩
    induction hpath with
    | refl => exact .root (mem_rootBuses.mp hr)
    | tail _ hlast ih =>
      obtain ⟨f, hf, hnext⟩ := hlast
      obtain ⟨rfl, hon⟩ := mem_functionsOn.mp hf
      obtain ⟨hbridge, rfl⟩ := nextBus_eq_some.mp hnext
      exact .bridge ih hon hbridge
  · intro h
    induction h with
    | root hroot => exact ⟨_, mem_rootBuses.mpr hroot, .refl⟩
    | bridge _ hon hbridge ih =>
      obtain ⟨r, hr, hpath⟩ := ih
      exact ⟨r, hr,
        hpath.tail ⟨_, mem_functionsOn.mpr ⟨rfl, hon⟩, nextBus_eq_some.mpr ⟨hbridge, rfl⟩⟩⟩

end TommyOS.Pci
