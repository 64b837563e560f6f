import TommyOS.Usb.Device
import Mathlib.Data.List.Basic

/-!
# Key presses

`HIDKeyboardDriver` on top of `HIDBaseDriver`: what it reports for a sequence of boot
reports. A report has the modifier keys in byte 0 and the key codes in the bytes 2 to 7, and
the driver looks a key code up in all bytes of the report before.
-/

namespace TommyOS.Usb
namespace HIDKeyboardDriver

/-! ## The driver -/

/-- The constructor. -/
def new (bufAddress : BitVec 64) (interfaceIndex : BitVec 8) : HIDBaseDriver :=
  .new bufAddress interfaceIndex 8

/-- `OnDataReceived`: the key codes that it calls `NotifyKeyPush` with. -/
def onDataReceived (buf : ℕ → BitVec 8) (w : HIDBaseDriver) : List (BitVec 8) :=
  (List.range' 2 6).filterMap fun i =>
    let key := buf i
    if key = 0#8 then none
    else if ((List.range HIDBaseDriver.kBufferSize).map w.previousBuf).contains key then none
    else some key

/-- `OnInterruptCompleted` for an IN endpoint up to the request for the next report, with the
contents of `buf_`. -/
def onInterruptCompleted (w : HIDBaseDriver) (buf : ℕ → BitVec 8) (len : ℕ) :
    List (BitVec 8) × HIDBaseDriver :=
  (onDataReceived buf w,
    { w with previousBuf := fun k => if k < len then buf k else w.previousBuf k })

/-- The calls of `NotifyKeyPush` for each report of a sequence. A report is given by what
`buf_` holds when it is delivered. -/
def onReports (w : HIDBaseDriver) : List (ℕ → BitVec 8) → List (List (BitVec 8))
  | [] => []
  | buf :: bufs =>
    (onInterruptCompleted w buf 8).1 :: onReports (onInterruptCompleted w buf 8).2 bufs

/-- The driver of a device keeps the same report. -/
theorem driverOnInterruptCompleted_eq {m : Machine} {d : Device} {i : ℕ} {w : HIDBaseDriver}
    (hw : d.drivers[i]? = some w) {epId : EndpointID} (hin : epId.isIn = true) {len : ℕ}
    (hlen : len ≤ HIDBaseDriver.kBufferSize) :
    d.driverOnInterruptCompleted m i epId len =
      (d.setDriver i (onInterruptCompleted w
        (fun k => m.byteAt (w.bufAddress + BitVec.ofNat 64 k)) len).2).interruptIn
        w.epInterruptIn w.bufAddress w.inPacketSize := by
  have hfits : (len : ℤ) ≤ (HIDBaseDriver.kBufferSize : ℤ) := by exact_mod_cast hlen
  unfold Device.driverOnInterruptCompleted onInterruptCompleted
  simp only [hw, hin, hfits, Option.bind_eq_bind, Option.bind_some, if_true, Int.ofNat_lt]

/-! ## Keys -/

/-- The bytes of a report for key codes. -/
def keys (report : ℕ → BitVec 8) : List (BitVec 8) := (List.range' 2 6).map report

/-- The keys that went down between two reports. -/
def newKeys (previous report : ℕ → BitVec 8) : List (BitVec 8) :=
  (keys report).filter fun key => key ≠ 0#8 ∧ ¬ (keys previous).contains key

/-- A report without keys, which is what counts as the one before the first. -/
def noKeys : ℕ → BitVec 8 := fun _ => 0#8

/-- Each report with the one before it. -/
def successive (reports : List (ℕ → BitVec 8)) : List ((ℕ → BitVec 8) × (ℕ → BitVec 8)) :=
  (noKeys :: reports).zip reports

/-- `previous_buf_` holds a report of 8 bytes, and zeros from there on. -/
structure Holds (w : HIDBaseDriver) (report : ℕ → BitVec 8) : Prop where
  bytes : ∀ k < 8, w.previousBuf k = report k
  rest : ∀ k, 8 ≤ k → w.previousBuf k = 0#8

theorem new_holds (bufAddress : BitVec 64) (interfaceIndex : BitVec 8) :
    Holds (new bufAddress interfaceIndex) noKeys := ⟨fun _ _ => rfl, fun _ _ => rfl⟩

/-- After a report the driver holds it. -/
theorem Holds.onInterruptCompleted {w : HIDBaseDriver} {previous : ℕ → BitVec 8}
    (h : Holds w previous) (report : ℕ → BitVec 8) :
    Holds (onInterruptCompleted w report 8).2 report := by
  refine ⟨fun k hk => if_pos hk, fun k hk => ?_⟩
  show (if k < 8 then report k else w.previousBuf k) = 0#8
  rw [if_neg (by omega)]
  exact h.rest k hk

theorem mem_keys {report : ℕ → BitVec 8} {key : BitVec 8} :
    key ∈ keys report ↔ ∃ k, 2 ≤ k ∧ k < 8 ∧ report k = key := by
  unfold keys
  simp only [List.mem_map, List.mem_range'_1]
  exact exists_congr fun k => ⟨fun h => ⟨h.1.1, by omega, h.2⟩, fun h => ⟨⟨h.1, by omega⟩, h.2.2⟩⟩

/-- A key code is found in `previous_buf_` if the report has it as a key, or in one of the
two bytes before the keys. -/
theorem Holds.mem_previousBuf {w : HIDBaseDriver} {previous : ℕ → BitVec 8}
    (h : Holds w previous) {key : BitVec 8} (hkey : key ≠ 0#8) :
    key ∈ (List.range HIDBaseDriver.kBufferSize).map w.previousBuf ↔
      key = previous 0 ∨ key = previous 1 ∨ key ∈ keys previous := by
  rw [List.mem_map, mem_keys]
  constructor
  · rintro ⟨k, -, hk⟩
    by_cases hlt : k < 8
    · rw [h.bytes k hlt] at hk
      by_cases h0 : k = 0
      · exact Or.inl (by rw [← hk, h0])
      · by_cases h1 : k = 1
        · exact Or.inr (Or.inl (by rw [← hk, h1]))
        · exact Or.inr (Or.inr ⟨k, by omega, hlt, hk⟩)
    · rw [h.rest k (by omega)] at hk
      exact absurd hk.symm hkey
  · have hbyte : ∀ k < 8, previous k = key →
        ∃ j ∈ List.range HIDBaseDriver.kBufferSize, w.previousBuf j = key := by
      intro k hk heq
      refine ⟨k, List.mem_range.mpr (hk.trans (by decide)), ?_⟩
      rw [h.bytes k hk, heq]
    rintro (h0 | h1 | ⟨k, -, hk, heq⟩)
    · exact hbyte 0 (by decide) h0.symm
    · exact hbyte 1 (by decide) h1.symm
    · exact hbyte k hk heq

/-- The loop of `OnDataReceived` is a filter on the bytes that it reads. -/
theorem filterMap_keys (report : ℕ → BitVec 8) (found : List (BitVec 8)) (indices : List ℕ) :
    (indices.filterMap fun i =>
      let key := report i
      if key = 0#8 then none else if found.contains key then none else some key) =
      (indices.map report).filter fun key => key ≠ 0#8 ∧ ¬ found.contains key := by
  induction indices with
  | nil => rfl
  | cons i indices ih =>
    rw [List.map_cons, List.filterMap_cons, ih]
    by_cases hzero : report i = 0#8
    · simp [hzero]
    · by_cases hfound : report i ∈ found
      · simp [hfound]
      · simp [hzero, hfound]

/-- What is notified are the new keys that differ from the two bytes before the keys. -/
theorem Holds.onDataReceived_eq {w : HIDBaseDriver} {previous : ℕ → BitVec 8}
    (h : Holds w previous) (report : ℕ → BitVec 8) :
    onDataReceived report w =
      (newKeys previous report).filter fun key => key ≠ previous 0 ∧ key ≠ previous 1 := by
  unfold onDataReceived newKeys
  rw [filterMap_keys, List.filter_filter]
  apply List.filter_congr
  intro key _
  by_cases hzero : key = 0#8
  · simp [hzero]
  · have hmem := h.mem_previousBuf hzero
    rw [← Bool.decide_and, decide_eq_decide, List.contains_iff_mem, List.contains_iff_mem, hmem,
      not_or, not_or]
    exact ⟨fun ⟨hne, h0, h1, hkeys⟩ => ⟨⟨h0, h1⟩, hne, hkeys⟩,
      fun ⟨⟨h0, h1⟩, hne, hkeys⟩ => ⟨hne, h0, h1, hkeys⟩⟩

/-- What is notified for a sequence of reports. -/
theorem Holds.onReports_eq {w : HIDBaseDriver} {previous : ℕ → BitVec 8} (h : Holds w previous)
    (reports : List (ℕ → BitVec 8)) :
    onReports w reports = ((previous :: reports).zip reports).map fun p =>
      (newKeys p.1 p.2).filter fun key => key ≠ p.1 0 ∧ key ≠ p.1 1 := by
  induction reports generalizing w previous with
  | nil => rfl
  | cons report reports ih =>
    have hnext := ih (h.onInterruptCompleted report)
    have hfirst := h.onDataReceived_eq report
    unfold onReports
    rw [hnext, List.zip_cons_cons, List.map_cons]
    exact congrArg (· :: _) hfirst

/-- A new driver reports for every report of a sequence the keys that went down, exactly when
none of them has the code that a report before it has as its modifiers or in byte 1. The driver of
a device keeps its reports as here by `driverOnInterruptCompleted_eq`. -/
theorem onReports_newKeys_iff (bufAddress : BitVec 64) (interfaceIndex : BitVec 8)
    (reports : List (ℕ → BitVec 8)) :
    onReports (new bufAddress interfaceIndex) reports =
        (successive reports).map (fun p => newKeys p.1 p.2) ↔
      ∀ p ∈ successive reports, ∀ key ∈ newKeys p.1 p.2, key ≠ p.1 0 ∧ key ≠ p.1 1 := by
  rw [(new_holds bufAddress interfaceIndex).onReports_eq]
  unfold successive
  rw [List.map_inj_left]
  apply forall₂_congr
  intro p _
  rw [List.filter_eq_self]
  simp only [decide_eq_true_eq]

/-- The left Alt key goes down, which has the bit 0x04. -/
def altDown : ℕ → BitVec 8 := fun k => if k = 0 then 0x04#8 else 0#8

/-- It goes up and the key A goes down, which has the code 0x04. -/
def aDown : ℕ → BitVec 8 := fun k => if k = 2 then 0x04#8 else 0#8

/-- The press of A is not reported. -/
theorem onReports_altDown :
    onReports (new 0x1000#64 0#8) [altDown, aDown] = [[], []] ∧
      (successive [altDown, aDown]).map (fun p => newKeys p.1 p.2) = [[], [0x04#8]] := by
  rw [(new_holds 0x1000#64 0#8).onReports_eq]
  decide

end HIDKeyboardDriver
end TommyOS.Usb
