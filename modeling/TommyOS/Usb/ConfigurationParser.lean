import TommyOS.Usb.Device
import Mathlib.Data.Nat.Find

/-!
# The parser of a configuration, step by step

`InitializePhase2` reads the answer of a device with two nested loops that share one reader. Here
it advances by one call of `Next()` at a time, and each step lists the bytes it reads and the
array elements it writes. The steps follow the code beyond the end of the data and of the
arrays only up to the access itself.
-/

namespace TommyOS.Usb

namespace descriptor

/-- `HIDDescriptor::kType`. -/
def kHID : BitVec 8 := 33#8

end descriptor

namespace ConfigurationParser

open ConfigurationDescriptorReader

/-- A byte of `buf` that is read, one that is read through a null pointer, and the elements of
`ep_configs_` and `class_drivers_` that are written. -/
inductive Access where
  | read (i : ℕ)
  | readNull (offset : ℕ)
  | storeEpConfig (i : ℕ)
  | storeClassDriver (i : ℕ)
deriving DecidableEq

/-- The access is to a byte of the data, or to an element of an array of 16. -/
def Access.InBounds (len : ℕ) : Access → Prop
  | .read i => i < len
  | .readNull _ => False
  | .storeEpConfig i => i < 16
  | .storeClassDriver i => i < 16

instance (len : ℕ) : (a : Access) → Decidable (a.InBounds len)
  | .read i => inferInstanceAs (Decidable (i < len))
  | .readNull _ => inferInstanceAs (Decidable False)
  | .storeEpConfig i => inferInstanceAs (Decidable (i < 16))
  | .storeClassDriver i => inferInstanceAs (Decidable (i < 16))

/-- Where the parser is: the reader at `p` looks for an interface, or for the endpoints of the one
at `ifDesc`, of which it has some; or it is done, with or without a driver; or what it did last
has no meaning. -/
inductive State where
  | search (p : ℕ)
  | endpoints (ifDesc p numEpConfigs : ℕ)
  | finished (ifDesc : Option ℕ)
  | undefined
deriving DecidableEq

/-- `num_endpoints` of the interface at a place. -/
def numEndpoints (buf : ℕ → BitVec 8) (ifDesc : ℕ) : ℕ := (buf (ifDesc + 4)).toNat

/-- The reads of `Log` for the HID descriptor at a place. -/
def logHID (buf : ℕ → BitVec 8) (p : ℕ) : List Access :=
  [.read (p + 2), .read (p + 3), .read (p + 5)] ++
    (List.range (3 * (buf (p + 5)).toNat)).map fun i => .read (p + 6 + i)

/-- One round of `Next<InterfaceDescriptor>()`, with what is done with an interface. -/
def searchStep (buf : ℕ → BitVec 8) (len p : ℕ) : List Access × State :=
  let q := p + (buf p).toNat
  if q < len then
    if buf (q + 1) = descriptor.kInterface then
      -- `NewClassDriver` looks at class, subclass and protocol
      let log : List Access := [.read (q + 5), .read (q + 6), .read (q + 7)]
      if (classDriverPacketSize buf q).isSome then
        ([.read p, .read (q + 1)] ++ log ++ [.read (q + 2)], .endpoints q q 0)
      else
        ([.read p, .read (q + 1)] ++ log, .search q)
    else
      ([.read p, .read (q + 1)], .search q)
  else
    ([.read p], .finished none)

/-- One round of the loop over the endpoints of an interface. -/
def endpointsStep (buf : ℕ → BitVec 8) (len ifDesc p numEpConfigs : ℕ) : List Access × State :=
  if numEpConfigs < numEndpoints buf ifDesc then
    let q := p + (buf p).toNat
    if q < len then
      if buf (q + 1) = descriptor.kEndpoint then
        let conf := makeEPConfig buf q
        ([.read (ifDesc + 4), .read p, .read (q + 1), .read (q + 2), .read (q + 3), .read (q + 4),
            .read (q + 5), .read (q + 6), .storeEpConfig numEpConfigs,
            .storeClassDriver conf.epId.number],
          if numEpConfigs < 16 then .endpoints ifDesc q (numEpConfigs + 1) else .undefined)
      else if buf (q + 1) = descriptor.kHID then
        ([.read (ifDesc + 4), .read p, .read (q + 1)] ++ logHID buf q,
          .endpoints ifDesc q numEpConfigs)
      else
        ([.read (ifDesc + 4), .read p, .read (q + 1)], .endpoints ifDesc q numEpConfigs)
    else
      -- the null pointer that `Next()` returns is not checked
      ([.read (ifDesc + 4), .read p, .readNull 1], .undefined)
  else
    ([.read (ifDesc + 4), .read 5], .finished (some ifDesc))

/-- One step of the parser, in each of its two loops. -/
def step (buf : ℕ → BitVec 8) (len : ℕ) : State → List Access × State
  | .search p => searchStep buf len p
  | .endpoints ifDesc p numEpConfigs => endpointsStep buf len ifDesc p numEpConfigs
  | s => ([], s)

/-- The accesses of the last of some steps, and the state behind it. -/
def run (buf : ℕ → BitVec 8) (len : ℕ) : ℕ → List Access × State
  | 0 => ([.read 1],
      if buf 1 = descriptor.kConfiguration then .search 0 else .finished none)
  | k + 1 => step buf len (run buf len k).2

/-- The loops of `InitializePhase2` have ended after some steps. -/
def Finished (buf : ℕ → BitVec 8) (len k : ℕ) : Prop :=
  ∃ ifDesc, (run buf len k).2 = .finished ifDesc

/-! ## The descriptors of the data -/

/-- The descriptor `k` places behind the one at `p`, by the length bytes. -/
def place (buf : ℕ → BitVec 8) (p : ℕ) : ℕ → ℕ
  | 0 => p
  | k + 1 => place buf p k + (buf (place buf p k)).toNat

/-- An interface that there is a driver for: a keyboard or a mouse. -/
def HasDriver (buf : ℕ → BitVec 8) (p : ℕ) : Prop :=
  buf (p + 1) = descriptor.kInterface ∧ (classDriverPacketSize buf p).isSome = true

instance (buf : ℕ → BitVec 8) (p : ℕ) : Decidable (HasDriver buf p) :=
  inferInstanceAs (Decidable (_ ∧ _))

/-- The first `k` descriptors behind that of the configuration are in the data, and none of them
has a driver. -/
def Passed (buf : ℕ → BitVec 8) (len k : ℕ) : Prop :=
  ∀ j, 0 < j → j ≤ k → place buf 0 j < len ∧ ¬ HasDriver buf (place buf 0 j)

/-- The first interface with a driver is `p`, the one behind `k` others. -/
structure FirstDriver (buf : ℕ → BitVec 8) (len k p : ℕ) : Prop where
  passed : Passed buf len k
  place : place buf 0 (k + 1) = p
  inside : p < len
  hasDriver : HasDriver buf p

/-- How many of the first `e` descriptors behind the one at `p` are endpoints. -/
def endpointCount (buf : ℕ → BitVec 8) (p : ℕ) : ℕ → ℕ
  | 0 => 0
  | e + 1 => endpointCount buf p e +
      if buf (place buf p (e + 1) + 1) = descriptor.kEndpoint then 1 else 0

/-- The loop over the endpoints of `p` goes on behind `e` descriptors, and can. -/
structure Goes (buf : ℕ → BitVec 8) (len p e : ℕ) : Prop where
  wanted : endpointCount buf p e < numEndpoints buf p
  inside : place buf p (e + 1) < len
  room : buf (place buf p (e + 1) + 1) = descriptor.kEndpoint → endpointCount buf p e < 16

variable {buf : ℕ → BitVec 8} {len k p e : ℕ}

theorem place_succ (buf : ℕ → BitVec 8) (p k : ℕ) :
    place buf p (k + 1) = place buf p k + (buf (place buf p k)).toNat := rfl

/-- The parser never goes back. -/
theorem place_mono (buf : ℕ → BitVec 8) (p : ℕ) : Monotone (place buf p) :=
  monotone_nat_of_le_succ fun _ => Nat.le_add_right _ _

theorem endpointCount_mono (buf : ℕ → BitVec 8) (p : ℕ) : Monotone (endpointCount buf p) :=
  monotone_nat_of_le_succ fun _ => Nat.le_add_right _ _

/-- A reader at a descriptor of no length stays there. -/
theorem place_stuck (h : buf (place buf p k) = 0#8) (j : ℕ) :
    place buf p (k + j) = place buf p k := by
  induction j with
  | zero => rfl
  | succ j ih =>
    rw [← Nat.add_assoc, place_succ, ih, h]
    rfl

/-- A length that is not zero takes it further. -/
theorem lt_place_succ (h : buf (place buf p k) ≠ 0#8) : place buf p k < place buf p (k + 1) := by
  have hpos : 0 < (buf (place buf p k)).toNat := by
    rw [Nat.pos_iff_ne_zero]
    intro hzero
    exact h (BitVec.eq_of_toNat_eq hzero)
  rw [place_succ]
  omega

theorem Passed.mono {j : ℕ} (h : Passed buf len k) (hj : j ≤ k) : Passed buf len j :=
  fun i hi hij => h i hi (hij.trans hj)

theorem Passed.succ (h : Passed buf len k) (hinside : place buf 0 (k + 1) < len)
    (hno : ¬ HasDriver buf (place buf 0 (k + 1))) : Passed buf len (k + 1) := by
  intro j hj hle
  rcases Nat.lt_or_eq_of_le hle with hlt | heq
  · exact h j hj (by omega)
  · rw [heq]
    exact ⟨hinside, hno⟩

theorem passed_zero : Passed buf len 0 := fun _ hpos hle => absurd hpos (by omega)

/-- A search ends in one of three ways. -/
theorem Passed.cases (h : Passed buf len k) :
    len ≤ place buf 0 (k + 1) ∨ FirstDriver buf len k (place buf 0 (k + 1)) ∨
      Passed buf len (k + 1) := by
  by_cases hinside : place buf 0 (k + 1) < len
  · by_cases hdriver : HasDriver buf (place buf 0 (k + 1))
    · exact .inr (.inl ⟨h, rfl, hinside, hdriver⟩)
    · exact .inr (.inr (h.succ hinside hdriver))
  · exact .inl (Nat.le_of_not_lt hinside)

/-! ## The states of a run -/

/-- Inside of the buffer the search stops at an interface with a driver. -/
theorem searchStep_eq (hinside : p + (buf p).toNat < len) :
    (searchStep buf len p).2 =
      if HasDriver buf (p + (buf p).toNat) then
        .endpoints (p + (buf p).toNat) (p + (buf p).toNat) 0
      else .search (p + (buf p).toNat) := by
  unfold searchStep
  simp only [if_pos hinside]
  by_cases htype : buf (p + (buf p).toNat + 1) = descriptor.kInterface
  · rw [if_pos htype]
    by_cases hdriver : (classDriverPacketSize buf (p + (buf p).toNat)).isSome = true
    · rw [if_pos hdriver, if_pos (show HasDriver buf _ from ⟨htype, hdriver⟩)]
    · rw [if_neg hdriver, if_neg fun hand : HasDriver buf _ => hdriver hand.2]
  · rw [if_neg htype, if_neg fun hand : HasDriver buf _ => htype hand.1]

/-- At the end of the buffer it stops without one. -/
theorem searchStep_end (hend : len ≤ p + (buf p).toNat) :
    searchStep buf len p = ([.read p], .finished none) := by
  unfold searchStep
  simp only [if_neg (Nat.not_lt_of_le hend)]

/-- The search, by induction on the descriptors that were passed. -/
theorem run_passed (hconf : buf 1 = descriptor.kConfiguration) (h : Passed buf len k) :
    (run buf len k).2 = .search (place buf 0 k) := by
  induction k with
  | zero => exact if_pos hconf
  | succ k ih =>
    obtain ⟨hinside, hno⟩ := h (k + 1) (Nat.succ_pos k) (Nat.le_refl _)
    rw [place_succ] at hinside hno
    rw [run, ih (h.mono (Nat.le_succ k))]
    show (searchStep buf len (place buf 0 k)).2 = _
    rw [searchStep_eq hinside, if_neg hno]
    rfl

/-- It enters the loop over the endpoints at the first interface with a driver. -/
theorem run_firstDriver (hconf : buf 1 = descriptor.kConfiguration)
    (h : FirstDriver buf len k p) : (run buf len (k + 1)).2 = .endpoints p p 0 := by
  have hplace := h.place
  rw [place_succ] at hplace
  rw [run, run_passed hconf h.passed]
  show (searchStep buf len (place buf 0 k)).2 = _
  rw [searchStep_eq (by rw [hplace]; exact h.inside), hplace, if_pos h.hasDriver]

theorem endpointsStep_goes (h : Goes buf len p e) :
    (endpointsStep buf len p (place buf p e) (endpointCount buf p e)).2 =
      .endpoints p (place buf p (e + 1)) (endpointCount buf p (e + 1)) := by
  have hinside := h.inside
  have hroom := h.room
  unfold endpointsStep
  rw [if_pos h.wanted]
  rw [place_succ] at hinside hroom
  simp only [if_pos hinside]
  rw [endpointCount, place_succ]
  by_cases htype : buf (place buf p e + (buf (place buf p e)).toNat + 1) = descriptor.kEndpoint
  · rw [if_pos htype, if_pos htype, if_pos (hroom htype)]
  · rw [if_neg htype, if_neg htype]
    split
    · rfl
    · rfl

/-- The end of the loop over the endpoints. -/
theorem endpointsStep_end (h : numEndpoints buf p ≤ endpointCount buf p e) :
    endpointsStep buf len p (place buf p e) (endpointCount buf p e) =
      ([.read (p + 4), .read 5], .finished (some p)) := by
  unfold endpointsStep
  rw [if_neg (Nat.not_lt_of_le h)]

/-- A round that has no meaning. -/
theorem endpointsStep_undefined (hwanted : endpointCount buf p e < numEndpoints buf p)
    (h : ¬ Goes buf len p e) :
    (endpointsStep buf len p (place buf p e) (endpointCount buf p e)).2 = .undefined := by
  unfold endpointsStep
  rw [if_pos hwanted]
  by_cases hinside : place buf p e + (buf (place buf p e)).toNat < len
  · simp only [if_pos hinside]
    by_cases htype : buf (place buf p e + (buf (place buf p e)).toNat + 1) = descriptor.kEndpoint
    · rw [if_pos htype, if_neg fun hroom => h ⟨hwanted, hinside, fun _ => hroom⟩]
    · exact absurd ⟨hwanted, hinside, fun hend => absurd hend htype⟩ h
  · simp only [if_neg hinside]

/-- The loop over the endpoints, by induction on its rounds. -/
theorem run_endpoints (hconf : buf 1 = descriptor.kConfiguration) (h : FirstDriver buf len k p)
    (hgoes : ∀ e' < e, Goes buf len p e') :
    (run buf len (k + 1 + e)).2 = .endpoints p (place buf p e) (endpointCount buf p e) := by
  induction e with
  | zero => exact run_firstDriver hconf h
  | succ e ih =>
    rw [← Nat.add_assoc, run, ih fun e' he' => hgoes e' (by omega)]
    exact endpointsStep_goes (hgoes e (Nat.lt_succ_self e))

/-- A parser that has finished stays so. -/
theorem run_of_finished {ifDesc : Option ℕ} (h : (run buf len k).2 = .finished ifDesc) (j : ℕ) :
    (run buf len (k + j)).2 = .finished ifDesc := by
  induction j with
  | zero => exact h
  | succ j ih =>
    rw [← Nat.add_assoc, run, ih]
    rfl

/-- So does one that has gone wrong. -/
theorem run_of_undefined (h : (run buf len k).2 = .undefined) (j : ℕ) :
    (run buf len (k + j)).2 = .undefined := by
  induction j with
  | zero => exact h
  | succ j ih =>
    rw [← Nat.add_assoc, run, ih]
    rfl

end ConfigurationParser

end TommyOS.Usb
