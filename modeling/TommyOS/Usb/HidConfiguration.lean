import TommyOS.Usb.DeviceInitialization
import TommyOS.Usb.ParserRefinement

/-!
# Configurations made of complete descriptors

The answer of a device as a list of descriptors, each as long as its length byte says, and what
`InitializePhase2` makes of it: the endpoints of the first interface that there is a driver for
are configured, in their order, and nothing else.
-/

namespace TommyOS.Usb

/-! ## Descriptors -/

/-- The bytes of a descriptor. -/
abbrev Descriptor := List (BitVec 8)

namespace Descriptor

variable (x : Descriptor)

/-- The byte at an offset. -/
def byte (i : ℕ) : BitVec 8 := x.getD i 0#8

/-- The field `length`. -/
def lengthByte : ℕ := (x.byte 0).toNat

def descriptorType : BitVec 8 := x.byte 1

/-- The size of the struct for a type. -/
def structSize (type : BitVec 8) : ℕ :=
  if type = descriptor.kDevice then 18
  else if type = descriptor.kConfiguration ∨ type = descriptor.kInterface then 9
  else if type = descriptor.kEndpoint then 7
  else if type = descriptor.kHID then 6
  else 2

/-- The length byte is right, and the struct of the type is inside. -/
structure Complete : Prop where
  length : x.lengthByte = x.length
  struct : structSize x.descriptorType ≤ x.length

def IsInterface : Prop := x.descriptorType = descriptor.kInterface

instance : Decidable x.IsInterface := inferInstanceAs (Decidable (_ = _))

/-- An interface with a driver: class 3, subclass 1 and protocol 1 or 2. -/
def IsSupported : Prop :=
  x.IsInterface ∧ (x.byte 5 = 3#8 ∧ x.byte 6 = 1#8) ∧ (x.byte 7 = 1#8 ∨ x.byte 7 = 2#8)

def isEndpoint : Bool := x.descriptorType = descriptor.kEndpoint

/-- `num_endpoints` of an interface. -/
def numEndpoints : ℕ := (x.byte 4).toNat

/-- `configuration_value` of a configuration. -/
def configurationValue : BitVec 8 := x.byte 5

/-- `endpoint_address.bits.number` of an endpoint. -/
def endpointNumber : ℕ := (x.byte 2).toNat % 16

/-- A configuration is that of an endpoint: its number, direction, type, packet size and
interval. -/
structure Describes (conf : EndpointConfig) : Prop where
  number : conf.epId.number = x.endpointNumber
  isIn : conf.epId.isIn = (x.byte 2).getLsbD 7
  epType : conf.epType = .ofBits ((x.byte 3).extractLsb' 0 2)
  maxPacketSize : conf.maxPacketSize = (x.byte 4).toNat + 256 * (x.byte 5).toNat
  interval : conf.interval = (x.byte 6).toNat

/-- `MakeEPConfig`. -/
def endpointConfig : EndpointConfig := makeEPConfig x.byte 0

theorem two_le_structSize (type : BitVec 8) : 2 ≤ structSize type := by
  unfold structSize
  split
  · omega
  · split
    · omega
    · split
      · omega
      · split
        · omega
        · omega

theorem endpointConfig_describes : x.Describes x.endpointConfig where
  number := by
    show (EndpointID.ofNumber _ _).number = _
    rw [EndpointID.number_ofNumber, BitVec.extractLsb'_toNat]
    rfl
  isIn := EndpointID.isIn_ofNumber _ _
  epType := rfl
  maxPacketSize := by
    show ((x.byte 5) ++ (x.byte 4)).toNat = _
    rw [BitVec.toNat_append, ← Nat.shiftLeft_add_eq_or_of_lt (x.byte 4).isLt]
    omega
  interval := rfl

end Descriptor

/-! ## Descriptors in the buffer -/

open Descriptor

/-- The buffer holds some descriptors from a place on, up to the end of the data. -/
def HoldsFrom (buf : ℕ → BitVec 8) (len : ℕ) : ℕ → List Descriptor → Prop
  | p, [] => p = len
  | p, x :: xs => (∀ i < x.length, buf (p + i) = x.byte i) ∧
      x.Complete ∧ HoldsFrom buf len (p + x.length) xs

section HoldsFrom

variable {buf : ℕ → BitVec 8} {len p : ℕ} {x y : Descriptor} {xs : List Descriptor}

theorem HoldsFrom.le (h : HoldsFrom buf len p xs) : p ≤ len := by
  induction xs generalizing p with
  | nil => exact Nat.le_of_eq h
  | cons x xs ih => exact (Nat.le_add_right _ _).trans (ih h.2.2)

theorem HoldsFrom.byte_eq (h : HoldsFrom buf len p (x :: xs)) {i : ℕ}
    (hi : i < structSize x.descriptorType) : buf (p + i) = x.byte i :=
  h.1 i (hi.trans_le h.2.1.struct)

theorem HoldsFrom.length_pos (h : HoldsFrom buf len p (x :: xs)) : 2 ≤ x.length :=
  (two_le_structSize _).trans h.2.1.struct

/-- The reader goes on by the length of the descriptor. -/
theorem HoldsFrom.next (h : HoldsFrom buf len p (x :: xs)) :
    p + (buf p).toNat = p + x.length := by
  have hlength : (x.byte 0).toNat = x.length := h.2.1.length
  have hfirst := h.1 0 (by have := h.length_pos; omega)
  rw [Nat.add_zero] at hfirst
  rw [hfirst, hlength]

/-- Where there is another descriptor, the reader is inside the data. -/
theorem HoldsFrom.inside (h : HoldsFrom buf len p (x :: xs)) : p < len := by
  have hle := h.2.2.le
  have hpos := h.length_pos
  omega

theorem HoldsFrom.type (h : HoldsFrom buf len p (x :: xs)) :
    buf (p + 1) = x.descriptorType := h.1 1 (by have := h.length_pos; omega)

/-- What the parser reads of an endpoint. -/
theorem HoldsFrom.makeEPConfig_eq (h : HoldsFrom buf len p (x :: xs))
    (htype : x.descriptorType = descriptor.kEndpoint) : makeEPConfig buf p = x.endpointConfig := by
  have hsize : structSize x.descriptorType = 7 := by rw [htype]; decide
  have hbyte : ∀ i < 7, buf (p + i) = x.byte i := fun i hi => h.byte_eq (by omega)
  unfold endpointConfig makeEPConfig
  rw [hbyte 2 (by omega), hbyte 3 (by omega), hbyte 4 (by omega), hbyte 5 (by omega),
    hbyte 6 (by omega)]

/-- What the parser reads of an interface. -/
theorem HoldsFrom.classDriverPacketSize_eq (h : HoldsFrom buf len p (x :: xs))
    (htype : x.IsInterface) : classDriverPacketSize buf p = classDriverPacketSize x.byte 0 := by
  have hsize : structSize x.descriptorType = 9 := by
    rw [show x.descriptorType = _ from htype]
    decide
  have hbyte : ∀ i < 9, buf (p + i) = x.byte i := fun i hi => h.byte_eq (by omega)
  unfold classDriverPacketSize
  rw [hbyte 5 (by omega), hbyte 6 (by omega), hbyte 7 (by omega)]

theorem isSupported_iff (x : Descriptor) :
    x.IsSupported ↔ x.IsInterface ∧ (classDriverPacketSize x.byte 0).isSome = true := by
  unfold IsSupported classDriverPacketSize
  simp only [Nat.zero_add]
  apply and_congr_right
  intro _
  by_cases hclass : x.byte 5 = 3#8 ∧ x.byte 6 = 1#8
  · rw [if_pos hclass, and_iff_right hclass]
    by_cases hkeyboard : x.byte 7 = 1#8
    · simp [hkeyboard]
    · by_cases hmouse : x.byte 7 = 2#8
      · simp [hmouse]
      · simp [hkeyboard, hmouse]
  · simp [hclass]

end HoldsFrom

/-! ## The endpoints of an interface -/

namespace Device

variable {m : Machine} {d : Device} {buf : ℕ → BitVec 8} {len p : ℕ}

open ConfigurationDescriptorReader ConfigurationParser

/-- What the parser does with an endpoint. -/
def addEndpoint (driver : ℕ) (d : Device) (x : Descriptor) : Device :=
  { d with
    epConfigs := Function.update d.epConfigs d.numEpConfigs x.endpointConfig
    numEpConfigs := d.numEpConfigs + 1
    classDrivers :=
      Function.update d.classDrivers x.endpointConfig.epId.number (some driver) }

/-- A device to which some endpoints were added, and nothing else. -/
structure EndpointsAdded (driver : ℕ) (xs : List Descriptor) (d d' : Device) : Prop where
  others : d' = d.withEndpoints d'.epConfigs d'.numEpConfigs d'.classDrivers
  numEpConfigs : d'.numEpConfigs = d.numEpConfigs + xs.length
  added : ∀ k (hk : k < xs.length), d'.epConfigs (d.numEpConfigs + k) = xs[k].endpointConfig
  kept : ∀ k, k < d.numEpConfigs ∨ d.numEpConfigs + xs.length ≤ k → d'.epConfigs k = d.epConfigs k
  classDrivers : ∀ number, d'.classDrivers number =
    if number ∈ xs.map Descriptor.endpointNumber then some driver else d.classDrivers number

theorem endpointsAdded_foldl (driver : ℕ) (xs : List Descriptor) (d : Device) :
    EndpointsAdded driver xs d (xs.foldl (addEndpoint driver) d) := by
  -- the first endpoint goes to the first free entry, the others behind it
  induction xs generalizing d with
  | nil => exact ⟨rfl, rfl, fun k hk => absurd hk (Nat.not_lt_zero k), fun _ _ => rfl, fun _ => rfl⟩
  | cons x xs ih =>
    obtain ⟨hothers, hnum, hadded, hkept, hclass⟩ := ih (addEndpoint driver d x)
    have hstart : (addEndpoint driver d x).numEpConfigs = d.numEpConfigs + 1 := rfl
    rw [hstart] at hnum hadded hkept
    have hlength : (x :: xs).length = xs.length + 1 := List.length_cons
    rw [List.foldl_cons]
    refine ⟨hothers, by omega, fun k hk => ?_, fun k hk => ?_, fun number => ?_⟩
    · cases k with
      | zero =>
        rw [Nat.add_zero, hkept _ (Or.inl (Nat.lt_succ_self _))]
        exact Function.update_self _ _ _
      | succ k =>
        have hindex : d.numEpConfigs + (k + 1) = d.numEpConfigs + 1 + k := by omega
        rw [hindex, hadded k (Nat.lt_of_succ_lt_succ hk)]
        rfl
    · rw [hkept k (by omega)]
      exact Function.update_of_ne (by omega) _ _
    · have hnumber : x.endpointConfig.epId.number = x.endpointNumber :=
        x.endpointConfig_describes.number
      rw [hclass, List.map_cons]
      -- a later endpoint of the same number has the last word, for the same driver
      by_cases hrest : number ∈ xs.map Descriptor.endpointNumber
      · rw [if_pos hrest, if_pos (List.mem_cons_of_mem _ hrest)]
      · rw [if_neg hrest]
        show Function.update d.classDrivers x.endpointConfig.epId.number (some driver) number = _
        rw [hnumber]
        by_cases hfirst : number = x.endpointNumber
        · rw [hfirst, Function.update_self, if_pos List.mem_cons_self]
        · rw [Function.update_of_ne hfirst, if_neg]
          exact fun hmem => (List.mem_cons.mp hmem).elim hfirst hrest

/-- The loop over the endpoints adds those that the descriptors ahead have. -/
theorem readEndpoints_eq {driver n fuel : ℕ} {cur : Descriptor} {mid post : List Descriptor}
    (h : HoldsFrom buf len p (cur :: mid ++ post))
    (hcount : d.numEpConfigs + (mid.filter Descriptor.isEndpoint).length = n) (hn : n ≤ 16)
    (hfuel : mid.length < fuel) :
    readEndpoints buf len driver n fuel p d =
      some ((mid.filter Descriptor.isEndpoint).foldl (addEndpoint driver) d) := by
  -- the descriptors between are walked one by one, until as many endpoints are found as asked for
  induction mid generalizing cur p d fuel with
  | nil =>
    obtain ⟨fuel, rfl⟩ := Nat.exists_eq_add_of_lt hfuel
    rw [List.filter_nil, List.length_nil] at hcount
    unfold readEndpoints
    rw [if_neg (by omega)]
    rfl
  | cons x mid ih =>
    rw [List.length_cons] at hfuel
    obtain ⟨fuel, rfl⟩ := Nat.exists_eq_add_of_lt hfuel
    by_cases hdone : d.numEpConfigs < n
    · have hnext := h.next
      have hrest : HoldsFrom buf len (p + cur.length) (x :: mid ++ post) := h.2.2
      unfold readEndpoints
      rw [if_pos hdone, next_eq, hnext]
      simp only [decide_eq_true_eq, if_pos hrest.inside, hrest.type]
      by_cases htype : x.descriptorType = descriptor.kEndpoint
      · have hendpoint : x.isEndpoint = true := decide_eq_true htype
        rw [List.filter_cons_of_pos hendpoint, List.length_cons] at hcount
        rw [if_pos htype, if_pos (by omega), List.filter_cons_of_pos hendpoint,
          hrest.makeEPConfig_eq htype, List.foldl_cons]
        exact ih hrest (by show d.numEpConfigs + 1 + _ = n; omega) (by omega)
      · have hother : ¬ x.isEndpoint = true := by simpa [Descriptor.isEndpoint] using htype
        rw [List.filter_cons_of_neg hother] at hcount ⊢
        rw [if_neg htype]
        exact ih hrest hcount (by omega)
    · -- all endpoints have been found
      have hnone : (x :: mid).filter Descriptor.isEndpoint = [] :=
        List.eq_nil_of_length_eq_zero (by omega)
      rw [hnone]
      unfold readEndpoints
      rw [if_neg hdone]
      rfl

/-! ## The interfaces -/

/-- The device with a new driver, before its endpoints are read. -/
def withDriver (d : Device) (w : HIDBaseDriver) : Device :=
  { d with drivers := d.drivers ++ [w], numEpConfigs := 0 }

/-- The loop goes on behind a descriptor without a driver; behind an interface the search starts
again. -/
theorem interfacesFrom_skip (m : Machine) (d : Device) {cur x : Descriptor} {xs : List Descriptor}
    (h : HoldsFrom buf len p (cur :: x :: xs)) (hx : ¬ x.IsSupported) (g fuel : ℕ) :
    ∃ g' fuel', (g' = g ∧ fuel' = fuel + 1 ∨ g' = m.fuel ∧ fuel' = fuel) ∧
      interfacesFrom m buf len (g + 1) (fuel + 1) p d =
        interfacesFrom m buf len g' fuel' (p + cur.length) d := by
  have hnext := h.next
  have hrest : HoldsFrom buf len (p + cur.length) (x :: xs) := h.2.2
  by_cases htype : x.IsInterface
  · refine ⟨m.fuel, fuel, .inr ⟨rfl, rfl⟩, ?_⟩
    have hnone : classDriverPacketSize buf (p + cur.length) = none := by
      rw [hrest.classDriverPacketSize_eq htype, ← Option.not_isSome_iff_eq_none]
      exact fun hsome => hx ((isSupported_iff x).mpr ⟨htype, hsome⟩)
    rw [interfacesFrom, nextOfType_succ, hnext, if_pos hrest.inside,
      if_pos (hrest.type.trans htype)]
    simp only [Option.bind_eq_bind, Option.bind_some, newClassDriver, hnone]
    rw [readInterfaces_succ]
  · refine ⟨g, fuel + 1, .inl ⟨rfl, rfl⟩, ?_⟩
    have hother : buf (p + cur.length + 1) ≠ descriptor.kInterface := by
      rw [hrest.type]
      exact htype
    unfold interfacesFrom
    rw [nextOfType_succ, hnext, if_pos hrest.inside, if_neg hother]

/-- The loop over the interfaces stops at the first one with a driver. -/
theorem interfacesFrom_supported {address : BitVec 64} {size g f : ℕ} {cur iface : Descriptor}
    {pre mid post : List Descriptor} (hnew : m.newDriver = some address)
    (h : HoldsFrom buf len p (cur :: pre ++ iface :: (mid ++ post)))
    (hpre : ∀ x ∈ pre, ¬ x.IsSupported) (hiface : iface.IsInterface)
    (hsize : classDriverPacketSize iface.byte 0 = some size)
    (hcount : (mid.filter Descriptor.isEndpoint).length = iface.numEndpoints)
    (hn : iface.numEndpoints ≤ 16) (hg : pre.length < g) (hfuel : pre.length ≤ f)
    (hm : pre.length < m.fuel) (hmid : mid.length < m.fuel) :
    interfacesFrom m buf len g f p d =
      some (some d.drivers.length, (mid.filter Descriptor.isEndpoint).foldl
        (addEndpoint d.drivers.length) (d.withDriver (.new address (iface.byte 2) size))) := by
  -- the interfaces without a driver are passed one by one
  induction pre generalizing cur p g f with
  | nil =>
    obtain ⟨g, rfl⟩ := Nat.exists_eq_add_of_lt hg
    have hnext := h.next
    have hrest : HoldsFrom buf len (p + cur.length) (iface :: (mid ++ post)) := h.2.2
    have htype : buf (p + cur.length + 1) = descriptor.kInterface := hrest.type.trans hiface
    have hstruct : structSize iface.descriptorType = 9 := by
      rw [show iface.descriptorType = _ from hiface]
      decide
    have hpacket := (hrest.classDriverPacketSize_eq hiface).trans hsize
    have hends : buf (p + cur.length + 4) = iface.byte 4 := hrest.byte_eq (by omega)
    have hindex : buf (p + cur.length + 2) = iface.byte 2 := hrest.byte_eq (by omega)
    have hread : readEndpoints buf len d.drivers.length iface.numEndpoints m.fuel (p + cur.length)
        (d.withDriver (.new address (iface.byte 2) size)) = some _ :=
      readEndpoints_eq hrest (show 0 + _ = iface.numEndpoints by omega) hn hmid
    unfold interfacesFrom
    rw [nextOfType_succ, hnext, if_pos hrest.inside, if_pos htype]
    simp only [Option.bind_eq_bind, Option.bind_some, newClassDriver, hpacket, hnew, hends, hindex]
    rw [show (iface.byte 4).toNat = iface.numEndpoints from rfl]
    unfold withDriver at hread ⊢
    rw [hread]
    rfl
  | cons x pre ih =>
    rw [List.length_cons] at hg hfuel hm
    obtain ⟨g, rfl⟩ := Nat.exists_eq_add_of_lt hg
    obtain ⟨f, rfl⟩ := Nat.exists_eq_add_of_le' (Nat.le_of_add_left_le hfuel)
    obtain ⟨g', fuel', hnext, hskip⟩ := interfacesFrom_skip m d h (hpre x List.mem_cons_self)
      (pre.length + 1 + g) f
    rw [hskip]
    exact ih h.2.2 (fun y hy => hpre y (List.mem_cons_of_mem x hy)) (by omega) (by omega) (by omega)

/-- Without an interface that has a driver the loop ends at the end of the data. -/
theorem interfacesFrom_unsupported {g f : ℕ} {cur : Descriptor} {xs : List Descriptor}
    (h : HoldsFrom buf len p (cur :: xs)) (hxs : ∀ x ∈ xs, ¬ x.IsSupported)
    (hg : xs.length < g) (hfuel : xs.length ≤ f) (hm : xs.length < m.fuel) :
    interfacesFrom m buf len g f p d = some (none, d) := by
  induction xs generalizing cur p g f with
  | nil =>
    obtain ⟨g, rfl⟩ := Nat.exists_eq_add_of_lt hg
    have hend : p + cur.length = len := h.2.2
    unfold interfacesFrom
    rw [nextOfType_succ, h.next, if_neg (by omega)]
    rfl
  | cons x xs ih =>
    rw [List.length_cons] at hg hfuel hm
    obtain ⟨g, rfl⟩ := Nat.exists_eq_add_of_lt hg
    obtain ⟨f, rfl⟩ := Nat.exists_eq_add_of_le' (Nat.le_of_add_left_le hfuel)
    obtain ⟨g', fuel', hnext, hskip⟩ := interfacesFrom_skip m d h (hxs x List.mem_cons_self)
      (xs.length + 1 + g) f
    rw [hskip]
    exact ih h.2.2 (fun y hy => hxs y (List.mem_cons_of_mem x hy)) (by omega) (by omega) (by omega)

/-! ## The phases -/

/-- `class_drivers_` has a driver for the endpoints of a device, so `InitializePhase3` finds
one for each. -/
theorem setEndpoints_isSome {n : ℕ} (h : ∀ k < n, ∃ i < d.drivers.length,
    d.classDrivers (d.epConfigs k).epId.number = some i) :
    ∃ drivers, drivers.length = d.drivers.length ∧
      d.setEndpoints n = some { d with drivers := drivers } := by
  induction n with
  | zero => exact ⟨d.drivers, rfl, rfl⟩
  | succ n ih =>
    obtain ⟨drivers, hlength, hset⟩ := ih fun k hk => h k (Nat.lt_succ_of_lt hk)
    obtain ⟨i, hi, hclass⟩ := h n (Nat.lt_succ_self n)
    rw [← hlength] at hi
    refine ⟨drivers.set i (drivers[i].setEndpoint (d.epConfigs n)), ?_, ?_⟩
    · rw [List.length_set, hlength]
    · unfold setEndpoints
      rw [hset]
      simp only [Option.bind_eq_bind, Option.bind_some, hclass, List.getElem?_eq_getElem hi]
      rfl

/-- What `InitializePhase2` leaves for an interface and its endpoints. -/
structure ConfiguredFor (d d' : Device) (iface : Descriptor) (xs : List Descriptor) : Prop where
  initializePhase : d'.initializePhase = 3
  numEpConfigs : d'.numEpConfigs = xs.length
  epConfigs : ∀ k (hk : k < xs.length), xs[k].Describes (d'.epConfigs k)
  otherConfigs : ∀ k, xs.length ≤ k → d'.epConfigs k = d.epConfigs k
  driver : ∃ w, d'.drivers = d.drivers ++ [w] ∧ w.interfaceIndex = iface.byte 2
  classDrivers : ∀ number, d'.classDrivers number =
    if number ∈ xs.map Descriptor.endpointNumber then some d.drivers.length
    else d.classDrivers number

/-- A new driver with endpoints, in the phase that waits for the configuration to be set. -/
theorem EndpointsAdded.configuredFor {d' : Device} {address : BitVec 64} {size : ℕ}
    {iface : Descriptor} {xs : List Descriptor}
    (h : EndpointsAdded d.drivers.length xs (d.withDriver (.new address (iface.byte 2) size)) d') :
    ConfiguredFor d { d' with initializePhase := 3 } iface xs := by
  -- the endpoints of a new driver start at entry 0
  have hzero : (d.withDriver (.new address (iface.byte 2) size)).numEpConfigs = 0 := rfl
  refine ⟨rfl, ?_, fun k hk => ?_, fun k hk => ?_, ?_, h.classDrivers⟩
  · rw [← Nat.zero_add xs.length, ← hzero]
    exact h.numEpConfigs
  · have hconfig := h.added k hk
    rw [hzero, Nat.zero_add] at hconfig
    show xs[k].Describes (d'.epConfigs k)
    rw [hconfig]
    exact Descriptor.endpointConfig_describes _
  · exact h.kept k (Or.inr (by rw [hzero, Nat.zero_add]; exact hk))
  · refine ⟨.new address (iface.byte 2) size, ?_, rfl⟩
    show d'.drivers = _
    rw [h.others]
    rfl

/-- A device of which only the transfers have changed. -/
def SameConfiguration (d d' : Device) : Prop :=
  ∃ waiters rings stages, d' =
    { d with eventWaiters := waiters, transferRings := rings, setupStageMap := stages }

theorem setConfiguration_same {d' : Device} {err : Error} {configValue : BitVec 8}
    (h : d.setConfiguration kDefaultControlPipeID configValue = some (err, d')) :
    SameConfiguration d d' := by
  unfold setConfiguration controlOut at h
  rcases controlTransfer_cases h with ⟨-, waiters, rfl⟩ | ⟨-, _, _, _, _, waiters, -, -, rfl⟩
  · exact ⟨waiters, d.transferRings, d.setupStageMap, rfl⟩
  · exact ⟨waiters, _, _, rfl⟩

/-- `InitializePhase3` does not call through a null pointer. -/
theorem ConfiguredFor.initializePhase3_isSome {d' d'' : Device} {iface : Descriptor}
    {xs : List Descriptor} (h : ConfiguredFor d d' iface xs) (hsame : SameConfiguration d' d'') :
    (d''.initializePhase3).isSome = true := by
  obtain ⟨waiters, rings, stages, rfl⟩ := hsame
  obtain ⟨w, hdrivers, -⟩ := h.driver
  have hset := setEndpoints_isSome (n := d'.numEpConfigs)
    (d := { d' with eventWaiters := waiters, transferRings := rings, setupStageMap := stages }) (by
      intro k hk
      rw [h.numEpConfigs] at hk
      refine ⟨d.drivers.length, ?_, ?_⟩
      · show _ < d'.drivers.length
        rw [hdrivers, List.length_append, List.length_singleton]
        exact Nat.lt_succ_self _
      · show d'.classDrivers (d'.epConfigs k).epId.number = _
        rw [h.classDrivers, (h.epConfigs k hk).number, if_pos]
        exact List.mem_map_of_mem (List.getElem_mem hk))
  obtain ⟨drivers, -, hset⟩ := hset
  unfold initializePhase3
  simp only [hset, Option.bind_eq_bind, Option.bind_some, Option.isSome_some]

end Device

open Device

/-- The answer of a device is a configuration descriptor and some others, all complete. -/
structure WellFormedConfiguration (buf : ℕ → BitVec 8) (len : ℕ) (conf : Descriptor)
    (rest : List Descriptor) : Prop where
  holds : HoldsFrom buf len 0 (conf :: rest)
  type : conf.descriptorType = descriptor.kConfiguration

/-- An interface with a driver, behind some without, and descriptors that have as many endpoints
as the interface names, which are at most 16. -/
structure FirstHidInterface (pre : List Descriptor) (iface : Descriptor) (mid : List Descriptor) :
    Prop where
  unsupported : ∀ x ∈ pre, ¬ x.IsSupported
  supported : iface.IsSupported
  endpoints : (mid.filter Descriptor.isEndpoint).length = iface.numEndpoints
  atMost : iface.numEndpoints ≤ 16

/-- `InitializePhase2` configures a device for the endpoints of its first interface with a
driver, requests the configuration and makes the next phase safe. Without such an interface it
changes nothing. -/
theorem initializePhase2_wellFormed (buf : ℕ → BitVec 8) (len : ℕ) (conf : Descriptor)
    (rest : List Descriptor) (h : WellFormedConfiguration buf len conf rest) :
    (∀ pre iface mid post, rest = pre ++ iface :: (mid ++ post) →
      FirstHidInterface pre iface mid →
      ∃ fuel, ∀ (m : Machine) (d : Device), fuel ≤ m.fuel → m.newDriver.isSome = true →
        ∃ d', ConfiguredFor d d' iface (mid.filter Descriptor.isEndpoint) ∧
          d.initializePhase2 m buf len =
            d'.setConfiguration kDefaultControlPipeID conf.configurationValue ∧
          ∀ err d'', d.initializePhase2 m buf len = some (err, d'') →
            SameConfiguration d' d'' ∧ (d''.initializePhase3).isSome = true) ∧
    ((∀ x ∈ rest, ¬ x.IsSupported) →
      ∃ fuel, ∀ (m : Machine) (d : Device), fuel ≤ m.fuel →
        d.initializePhase2 m buf len = some (.kSuccess, d)) := by
  obtain ⟨hholds, htype⟩ := h
  have hstruct : structSize conf.descriptorType = 9 := by rw [htype]; decide
  have hconf : buf 1 = descriptor.kConfiguration := by
    have hbyte := hholds.type
    rw [Nat.zero_add] at hbyte
    exact hbyte.trans htype
  have hvalue : buf 5 = conf.configurationValue := by
    have hbyte := hholds.byte_eq (i := 5) (by omega)
    rwa [Nat.zero_add] at hbyte
  constructor
  · intro pre iface mid post hrest hiface
    subst hrest
    refine ⟨pre.length + mid.length + 1, fun m d hfuel hdriver => ?_⟩
    obtain ⟨address, hnew⟩ := Option.isSome_iff_exists.mp hdriver
    obtain ⟨hinterface, hpacket⟩ := (isSupported_iff iface).mp hiface.supported
    obtain ⟨size, hsize⟩ := Option.isSome_iff_exists.mp hpacket
    have hread := interfacesFrom_supported (d := d) (g := m.fuel) (f := m.fuel - 1) hnew hholds
      hiface.unsupported hinterface hsize hiface.endpoints hiface.atMost (by omega) (by omega)
      (by omega) (by omega)
    rw [← ConfigurationParser.readInterfaces_succ, Nat.sub_add_cancel (by omega)] at hread
    have hadded := endpointsAdded_foldl d.drivers.length (mid.filter Descriptor.isEndpoint)
      (d.withDriver (.new address (iface.byte 2) size))
    generalize (mid.filter Descriptor.isEndpoint).foldl (addEndpoint d.drivers.length)
      (d.withDriver (.new address (iface.byte 2) size)) = read at hread hadded
    have hconfigured := hadded.configuredFor
    have hphase : d.initializePhase2 m buf len =
        ({ read with initializePhase := 3 } : Device).setConfiguration kDefaultControlPipeID
          conf.configurationValue := by
      unfold initializePhase2
      rw [if_neg (not_not.mpr hconf), hread, ← hvalue]
      rfl
    refine ⟨_, hconfigured, hphase, fun err d'' hresult => ?_⟩
    rw [hphase] at hresult
    have hsame := setConfiguration_same hresult
    exact ⟨hsame, hconfigured.initializePhase3_isSome hsame⟩
  · intro hrest
    refine ⟨rest.length + 1, fun m d hfuel => ?_⟩
    have hread := interfacesFrom_unsupported (m := m) (d := d) (g := m.fuel) (f := m.fuel - 1)
      hholds hrest (by omega) (by omega) (by omega)
    rw [← ConfigurationParser.readInterfaces_succ, Nat.sub_add_cancel (by omega)] at hread
    unfold initializePhase2
    rw [if_neg (not_not.mpr hconf), hread]
    rfl

/-! A keyboard: the configuration, its interface, a HID descriptor and an endpoint. -/

def keyboardConfiguration : Descriptor :=
  [9#8, 2#8, 34#8, 0#8, 1#8, 1#8, 0#8, 0xa0#8, 50#8]

def keyboardInterface : Descriptor := [9#8, 4#8, 0#8, 0#8, 1#8, 3#8, 1#8, 1#8, 0#8]

def keyboardHid : Descriptor := [9#8, 33#8, 0x11#8, 1#8, 0#8, 1#8, 34#8, 63#8, 0#8]

def keyboardEndpoint : Descriptor := [7#8, 5#8, 0x81#8, 3#8, 8#8, 0#8, 10#8]

/-- The answer of the keyboard. -/
def keyboardBuf : ℕ → BitVec 8 := fun i =>
  (keyboardConfiguration ++ keyboardInterface ++ keyboardHid ++ keyboardEndpoint).getD i 0#8

theorem keyboard_wellFormed : WellFormedConfiguration keyboardBuf 34 keyboardConfiguration
    [keyboardInterface, keyboardHid, keyboardEndpoint] :=
  ⟨⟨by decide, ⟨by decide, by decide⟩, by decide, ⟨by decide, by decide⟩, by decide,
    ⟨by decide, by decide⟩, by decide, ⟨by decide, by decide⟩, rfl⟩, by decide⟩

theorem keyboard_firstHidInterface :
    FirstHidInterface [] keyboardInterface [keyboardHid, keyboardEndpoint] where
  unsupported := fun x hx => absurd hx List.not_mem_nil
  supported := (isSupported_iff keyboardInterface).mpr ⟨rfl, by decide⟩
  endpoints := by decide
  atMost := by decide

theorem initializePhase2_keyboard :
    ∃ fuel, ∀ (m : Machine) (d : Device), fuel ≤ m.fuel → m.newDriver.isSome = true →
      ∃ d', ConfiguredFor d d' keyboardInterface [keyboardEndpoint] ∧
        d.initializePhase2 m keyboardBuf 34 = d'.setConfiguration kDefaultControlPipeID 1#8 ∧
        ∀ err d'', d.initializePhase2 m keyboardBuf 34 = some (err, d'') →
          SameConfiguration d' d'' ∧ (d''.initializePhase3).isSome = true :=
  (initializePhase2_wellFormed keyboardBuf 34 keyboardConfiguration
    [keyboardInterface, keyboardHid, keyboardEndpoint] keyboard_wellFormed).1 []
    keyboardInterface [keyboardHid, keyboardEndpoint] [] rfl keyboard_firstHidInterface

end TommyOS.Usb
