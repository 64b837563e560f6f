import TommyOS.Usb.Trb
import Mathlib.Algebra.Order.Group.Nat
import Mathlib.Logic.Function.Basic
import Mathlib.Tactic.FinCases

/-!
# `Ring`: command and transfer rings

The producer of a ring. A push stores the words of a TRB one by one, the one with the cycle bit
last, and in the last slot of the buffer a link back to the first. `Ring.push` is the whole call,
`Ring.step` one 32-bit store of it.
-/

namespace TommyOS.Usb

/-- `buf_` is at the address `base`, and `buf i` is its slot `i`. -/
structure Ring where
  base : BitVec 64
  bufSize : ℕ
  buf : ℕ → TRB
  cycleBit : Bool
  writeIndex : ℕ

namespace Ring

/-- `Initialize`, with the buffer that was allocated. -/
def initializeWith (base : BitVec 64) (bufSize : ℕ) : Ring where
  base := base
  bufSize := bufSize
  buf := fun _ => 0
  cycleBit := true
  writeIndex := 0

/-- The address of a slot. -/
def slotAddress (base : BitVec 64) (i : ℕ) : BitVec 64 := base + BitVec.ofNat 64 (sizeofTRB * i)

/-- The store of word `i` in `CopyToLast`. -/
def storeWord (r : Ring) (data : TRB) (i : Fin 4) : Ring :=
  let word := if i = 3 then data 3 &&& 0xfffffffe#32 ||| (BitVec.ofBool r.cycleBit).setWidth 32
    else data i
  { r with
    buf := Function.update r.buf r.writeIndex (Function.update (r.buf r.writeIndex) i word) }

def copyToLast (r : Ring) (data : TRB) : Ring :=
  (((r.storeWord data 0).storeWord data 1).storeWord data 2).storeWord data 3

/-- `Push`, with the pointer it returns. -/
def push (r : Ring) (data : TRB) : BitVec 64 × Ring :=
  let trbPtr := slotAddress r.base r.writeIndex
  let r := r.copyToLast data
  let r := { r with writeIndex := r.writeIndex + 1 }
  if r.writeIndex = r.bufSize - 1 then
    let r := r.copyToLast (LinkTRB.toSegment r.base)
    (trbPtr, { r with writeIndex := 0, cycleBit := !r.cycleBit })
  else
    (trbPtr, r)

/-! ## Store by store -/

/-- Where a push is: the word that is stored next, of the TRB or of the link behind it. -/
inductive PushPoint where
  | idle
  | data (trb : TRB) (word : Fin 4)
  | link (word : Fin 4)

/-- The next store of a push, with the updates of the members behind it. -/
def step (r : Ring) : PushPoint → Ring × PushPoint
  | .idle => (r, .idle)
  | .data trb word =>
    let r := r.storeWord trb word
    if word < 3 then
      (r, .data trb (word + 1))
    else
      -- the TRB is complete; the last slot is kept for the link
      let r := { r with writeIndex := r.writeIndex + 1 }
      if r.writeIndex = r.bufSize - 1 then (r, .link 0) else (r, .idle)
  | .link word =>
    let r := r.storeWord (LinkTRB.toSegment r.base) word
    if word < 3 then
      (r, .link (word + 1))
    else
      -- the link is complete, and the ring starts again
      ({ r with writeIndex := 0, cycleBit := !r.cycleBit }, .idle)

/-- Some stores of a push. -/
def steps (r : Ring) (point : PushPoint) : ℕ → Ring × PushPoint
  | 0 => (r, point)
  | n + 1 => (r.step point).1.steps (r.step point).2 n

/-! ## Addresses -/

section SlotAddress

variable (base : BitVec 64) {i j : ℕ}

theorem slotAddress_zero : slotAddress base 0 = base := BitVec.add_zero base

theorem slotAddress_succ (i : ℕ) :
    slotAddress base i + BitVec.ofNat 64 sizeofTRB = slotAddress base (i + 1) := by
  unfold slotAddress
  rw [BitVec.add_assoc, ← BitVec.ofNat_add, Nat.mul_succ]

theorem toNat_slotAddress_sub (hi : sizeofTRB * i < 2 ^ 64) :
    (slotAddress base i - base).toNat = sizeofTRB * i := by
  unfold slotAddress
  rw [BitVec.add_comm, BitVec.add_sub_cancel, BitVec.toNat_ofNat, Nat.mod_eq_of_lt hi]

/-- The slot at the address of a slot. -/
theorem slotAddress_slot (hi : sizeofTRB * i < 2 ^ 64) :
    (slotAddress base i - base).toNat / sizeofTRB = i := by
  rw [toNat_slotAddress_sub base hi, Nat.mul_div_cancel_left _ (by decide)]

theorem slotAddress_inj (hi : sizeofTRB * i < 2 ^ 64) (hj : sizeofTRB * j < 2 ^ 64) :
    slotAddress base i = slotAddress base j ↔ i = j := by
  refine ⟨fun h => ?_, fun h => by rw [h]⟩
  rw [← slotAddress_slot base hi, ← slotAddress_slot base hj, h]

end SlotAddress

/-! ## What a push does -/

variable (r : Ring) (data : TRB)

theorem storeWord_eq (i : Fin 4) :
    r.storeWord data i =
      { r with
        buf := Function.update r.buf r.writeIndex
          (Function.update (r.buf r.writeIndex) i (data.stamped r.cycleBit i)) } := by
  unfold storeWord TRB.stamped
  by_cases hi : i = 3
  · subst hi
    rfl
  · simp only [if_neg hi]

/-- The four stores leave the TRB with the cycle bit of the producer. -/
theorem copyToLast_eq :
    r.copyToLast data =
      { r with buf := Function.update r.buf r.writeIndex (data.stamped r.cycleBit) } := by
  unfold copyToLast
  simp only [storeWord_eq, Function.update_idem, Function.update_self]
  congr 2
  funext i
  fin_cases i <;> simp

@[simp] theorem storeWord_writeIndex (i : Fin 4) :
    (r.storeWord data i).writeIndex = r.writeIndex := rfl

@[simp] theorem storeWord_bufSize (i : Fin 4) : (r.storeWord data i).bufSize = r.bufSize := rfl

theorem steps_add (m n : ℕ) : ∀ (r : Ring) (point : PushPoint),
    r.steps point (m + n) = (r.steps point m).1.steps (r.steps point m).2 n := by
  induction m with
  | zero =>
    intro r point
    rw [Nat.zero_add]
    rfl
  | succ m ih =>
    intro r point
    rw [Nat.succ_add]
    exact ih _ _

/-- The stores one after the other are the whole call. -/
theorem steps_push :
    r.steps (.data data 0) (if r.writeIndex + 1 = r.bufSize - 1 then 8 else 4) =
      ((r.push data).2, .idle) := by
  have hdata : r.steps (.data data 0) 4 =
      (let r := { r.copyToLast data with writeIndex := r.writeIndex + 1 }
       if r.writeIndex = r.bufSize - 1 then (r, .link 0) else (r, .idle)) := rfl
  have hlink : ∀ r : Ring, r.steps (.link 0) 4 =
      (let r := r.copyToLast (LinkTRB.toSegment r.base)
       ({ r with writeIndex := 0, cycleBit := !r.cycleBit }, .idle)) := fun _ => rfl
  have hsize : (r.copyToLast data).bufSize = r.bufSize := rfl
  have hindex : (r.copyToLast data).writeIndex = r.writeIndex := rfl
  unfold push
  by_cases hlast : r.writeIndex + 1 = r.bufSize - 1
  · rw [if_pos hlast, steps_add 4 4, hdata]
    simp only [hsize, hindex, if_pos hlast, hlink]
  · rw [if_neg hlast, hdata]
    simp only [hsize, hindex, if_neg hlast]

end Ring

end TommyOS.Usb
