import Mathlib.Data.BitVec
import Mathlib.Data.Nat.Notation

/-!
# Registers with controls, requests and events

A register of a device may hold bits of several kinds: controls keep what is written, a request is
made by writing a one, an event is acknowledged by writing a one, and the other bits belong to the
device. A write of what was read would acknowledge every event, so a driver masks what it has read
and adds what it wants. Nothing here names a particular register.
-/

/-- The kinds of the bits. A bit in no mask belongs to the device. -/
structure ControlRegister (n : ℕ) where
  controls : BitVec n
  requests : BitVec n
  events : BitVec n
  controls_requests : controls &&& requests = 0#n
  controls_events : controls &&& events = 0#n

namespace ControlRegister

variable {n : ℕ} (reg : ControlRegister n)

/-- The register after a write. -/
def write (old new : BitVec n) : BitVec n :=
  (new &&& reg.controls) ||| (old &&& ~~~reg.controls &&& ~~~(new &&& reg.events)) |||
    (new &&& reg.requests)

/-- The requests and acknowledgements of an action, and nothing else. -/
def act (old action : BitVec n) : BitVec n :=
  (old &&& ~~~(action &&& reg.events)) ||| (action &&& reg.requests)

/-- A mask keeps the controls, and of the rest only bits that are never written as ones. -/
structure Keeps (keep : BitVec n) : Prop where
  requests : keep &&& reg.requests = 0#n
  events : keep &&& reg.events = 0#n

theorem and_bit_false {a b : BitVec n} (h : a &&& b = 0#n) {i : ℕ} (ha : a.getLsbD i = true) :
    b.getLsbD i = false := by
  have hbit := congrArg (fun v : BitVec n => v.getLsbD i) h
  simp only [BitVec.getLsbD_and, ha, Bool.true_and, BitVec.getLsbD_zero] at hbit
  exact hbit

theorem getLsbD_act (old action : BitVec n) {i : ℕ} (hi : i < n) :
    (reg.act old action).getLsbD i =
      ((old.getLsbD i && !(action.getLsbD i && reg.events.getLsbD i)) ||
        (action.getLsbD i && reg.requests.getLsbD i)) := by
  unfold act
  simp [hi]

/-- A masked write is its action, in every bit that is not a control with another value than the
one that was read. -/
theorem getLsbD_write_masked {old read keep action : BitVec n} (hkeep : reg.Keeps keep)
    (haction : reg.controls &&& action = 0#n) {i : ℕ} (hi : i < n)
    (hcontrol : reg.controls.getLsbD i = true →
      keep.getLsbD i = true ∧ read.getLsbD i = old.getLsbD i) :
    (reg.write old ((read &&& keep) ||| action)).getLsbD i = (reg.act old action).getLsbD i := by
  rw [getLsbD_act reg old action hi]
  unfold write
  simp only [BitVec.getLsbD_or, BitVec.getLsbD_and, BitVec.getLsbD_not, hi, decide_true,
    Bool.true_and]
  cases hc : reg.controls.getLsbD i with
  | true =>
    obtain ⟨hk, hread⟩ := hcontrol hc
    rw [and_bit_false reg.controls_requests hc, and_bit_false reg.controls_events hc,
      and_bit_false haction hc, hk, hread]
    simp
  | false =>
    cases hk : keep.getLsbD i with
    | true =>
      rw [and_bit_false hkeep.requests hk, and_bit_false hkeep.events hk]
      simp
    | false => simp

/-- What an action does not name stays. -/
theorem getLsbD_act_of_not {old action : BitVec n} {i : ℕ} (hi : i < n)
    (haction : action.getLsbD i = false) : (reg.act old action).getLsbD i = old.getLsbD i := by
  rw [getLsbD_act reg old action hi, haction]
  simp

/-- An acknowledged event is gone. -/
theorem getLsbD_act_event {old action : BitVec n} {i : ℕ} (hi : i < n)
    (hevent : reg.events.getLsbD i = true) (hrequest : reg.requests.getLsbD i = false)
    (haction : action.getLsbD i = true) : (reg.act old action).getLsbD i = false := by
  rw [getLsbD_act reg old action hi, haction, hevent, hrequest]
  simp

/-- A request is there. -/
theorem getLsbD_act_request {old action : BitVec n} {i : ℕ} (hi : i < n)
    (hrequest : reg.requests.getLsbD i = true) (haction : action.getLsbD i = true) :
    (reg.act old action).getLsbD i = true := by
  rw [getLsbD_act reg old action hi, haction, hrequest]
  simp

end ControlRegister
