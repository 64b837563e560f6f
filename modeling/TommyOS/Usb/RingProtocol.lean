import TommyOS.Lib.CycleRing
import TommyOS.Lib.TransitionSystem
import TommyOS.Usb.Ring
import Mathlib.Data.List.GetD

/-!
# A ring between the driver and the controller

The stores of `Ring::Push` interleaved with an xHCI consumer. Both are at positions of the
sequence of all TRBs, links included: the ring of `n` slots carries `n - 1` TRBs and a link in
each lap. What the consumer has read is what was pushed.
-/

namespace TommyOS.Usb

open CycleRing

/-- The consumer's dequeue pointer and cycle state. -/
structure RingConsumer where
  dequeue : BitVec 64
  cycle : Bool

/-- The TRB at an address of a ring. -/
def Ring.trbAt (r : Ring) (address : BitVec 64) : TRB :=
  r.buf ((address - r.base).toNat / sizeofTRB)

/-- A step of the consumer, and the TRB it consumes unless that is a link. There is no step
while the cycle bit is not the consumer's. -/
def RingConsumer.step (c : RingConsumer) (r : Ring) : Option (Option TRB × RingConsumer) :=
  let trb := r.trbAt c.dequeue
  if trb.cycleBit ≠ c.cycle then
    none
  else if trb.trbType = LinkTRB.type then
    some (none, ⟨trb.pointer, if LinkTRB.toggleCycle trb then !c.cycle else c.cycle⟩)
  else
    some (some trb, ⟨c.dequeue + BitVec.ofNat 64 sizeofTRB, c.cycle⟩)

/-- A ring with both its parties, what was pushed and what was consumed. -/
structure RingState where
  ring : Ring
  point : Ring.PushPoint
  consumer : RingConsumer
  pushed : List TRB
  consumed : List TRB

/-- The steps of both parties. A push starts when few enough TRBs are unconsumed; no caller
pushes a link. -/
inductive RingStep (bufSize : ℕ) (s : RingState) : RingState → Prop where
  | start (trb : TRB) : s.point = .idle → trb.trbType ≠ LinkTRB.type →
      s.pushed.length - s.consumed.length < bufSize - 2 →
      RingStep bufSize s { s with point := .data trb 0, pushed := s.pushed ++ [trb] }
  | store : s.point ≠ .idle →
      RingStep bufSize s
        { s with ring := (s.ring.step s.point).1, point := (s.ring.step s.point).2 }
  | consume {trb : Option TRB} {c : RingConsumer} : s.consumer.step s.ring = some (trb, c) →
      RingStep bufSize s { s with consumer := c, consumed := s.consumed ++ trb.toList }

/-- A ring of some slots at an address. -/
def ringSystem (base : BitVec 64) (bufSize : ℕ) : TransitionSystem RingState where
  init s := s = ⟨.initializeWith base bufSize, .idle, ⟨base, true⟩, [], []⟩
  step := RingStep bufSize

/-! ## Positions of TRBs and links -/

/-- The number of TRBs before a position: one position of each lap is the link. -/
def trbCount (n v : ℕ) : ℕ := v - v / n

section TrbCount

variable {n v w : ℕ}

theorem trbCount_zero (n : ℕ) : trbCount n 0 = 0 := Nat.zero_sub _

theorem trbCount_succ (hn : 0 < n) (v : ℕ) :
    trbCount n (v + 1) = if v % n + 1 < n then trbCount n v + 1 else trbCount n v := by
  have hle := Nat.div_le_self v n
  unfold trbCount
  rcases succ_cases hn v with ⟨hlt, -, hdiv, -⟩ | ⟨hlast, -, hdiv, -⟩
  · rw [hdiv, if_pos hlt]
    omega
  · rw [hdiv, if_neg (by omega)]
    omega

theorem trbCount_mono (hn : 0 < n) (h : v ≤ w) : trbCount n v ≤ trbCount n w := by
  induction h with
  | refl => exact Nat.le_refl _
  | step _ ih =>
    refine Nat.le_trans ih ?_
    rw [Nat.succ_eq_add_one, trbCount_succ hn]
    split
    · exact Nat.le_succ _
    · exact Nat.le_refl _

/-- A TRB before a position is one of those counted there. -/
theorem trbCount_lt (hn : 0 < n) (hv : v % n + 1 < n) (h : v < w) :
    trbCount n v < trbCount n w := by
  have hmono := trbCount_mono hn (Nat.succ_le_of_lt h)
  rw [Nat.succ_eq_add_one, trbCount_succ hn, if_pos hv] at hmono
  omega

/-- When few enough TRBs are unconsumed, the slot of the next TRB is free, and that of the
link if the link is next but one. -/
theorem room_of_count {R W : ℕ} (hle : R ≤ W) (hW : W < R + n) (hslot : W % n + 1 < n)
    (hroom : trbCount n W - trbCount n R < n - 2) :
    W + 1 < R + n ∧ (W % n + 2 = n → W + 2 < R + n) := by
  have hWdiv := Nat.div_add_mod W n
  have hRdiv := Nat.div_add_mod R n
  have hn : 0 < n := by omega
  have hRmod := Nat.mod_lt R hn
  have hWle := Nat.div_le_self W n
  have hRle := Nat.div_le_self R n
  unfold trbCount at hroom
  have hlap : W / n = R / n ∨ W / n = R / n + 1 := by
    have hlow := Nat.div_le_div_right (c := n) hle
    have hhigh := Nat.div_le_div_right (c := n) (Nat.le_of_lt hW)
    rw [Nat.add_div_right R hn] at hhigh
    omega
  rcases hlap with h | h
  · rw [h] at hWdiv hroom hWle
    omega
  · -- a lap apart, the link of the lap is between the two
    have hmul : n * (W / n) = n * (R / n) + n := by rw [h, Nat.mul_add, Nat.mul_one]
    omega

end TrbCount

/-! ## The invariant -/

/-- What is at a position: a pushed TRB, or a link to the first slot. -/
def ringContent (base : BitVec 64) (n : ℕ) (pushed : List TRB) (v : ℕ) : TRB :=
  (if v % n + 1 = n then LinkTRB.toSegment base else pushed.getD (trbCount n v) 0).stamped
    (lapBit n v)

theorem cycleBit_ringContent (base : BitVec 64) (n : ℕ) (pushed : List TRB) (v : ℕ) :
    (ringContent base n pushed v).cycleBit = lapBit n v :=
  TRB.cycleBit_stamped _ _

/-- The number of TRBs pushed with all their words. -/
def RingState.written (s : RingState) : ℕ :=
  match s.point with
  | .data _ _ => s.pushed.length - 1
  | _ => s.pushed.length

/-- How far a push has come, and the room it still has. -/
def PointInv (base : BitVec 64) (n : ℕ) (s : RingState) (W R : ℕ) : Prop :=
  match s.point with
  | .idle => W % n + 1 < n ∧ W < R + n ∧ s.pushed.length = trbCount n W
  | .data trb word =>
    W % n + 1 < n ∧ W + 1 < R + n ∧ (W % n + 2 = n → W + 2 < R + n) ∧
      s.pushed.length = trbCount n W + 1 ∧ s.pushed[trbCount n W]? = some trb ∧
      ∀ i, i < word → s.ring.buf (W % n) i = trb i
  | .link word =>
    W % n + 1 = n ∧ W + 1 < R + n ∧ s.pushed.length = trbCount n W ∧
      ∀ i, i < word → s.ring.buf (W % n) i = LinkTRB.toSegment base i

/-- The producer is at position `W`, the consumer at position `R`. -/
structure RingInv (base : BitVec 64) (n : ℕ) (s : RingState) (W R : ℕ) : Prop where
  ringBase : s.ring.base = base
  bufSize : s.ring.bufSize = n
  window : Window n TRB.cycleBit (ringContent base n s.pushed) s.ring.buf W
  writeIndex : s.ring.writeIndex = W % n
  cycleBit : s.ring.cycleBit = lapBit n W
  le : R ≤ W
  lt : W < R + n
  dequeue : s.consumer.dequeue = Ring.slotAddress base (R % n)
  cycle : s.consumer.cycle = lapBit n R
  consumed : s.consumed.map TRB.payload = (s.pushed.take (trbCount n R)).map TRB.payload
  count : trbCount n R ≤ s.pushed.length
  noLink : ∀ trb ∈ s.pushed, trb.trbType ≠ LinkTRB.type
  point : PointInv base n s W R

theorem RingInv.length_consumed {base : BitVec 64} {n W R : ℕ} {s : RingState}
    (h : RingInv base n s W R) : s.consumed.length = trbCount n R := by
  have hlength := congrArg List.length h.consumed
  rw [List.length_map, List.length_map, List.length_take, Nat.min_eq_left h.count] at hlength
  exact hlength

theorem ringInv_init (base : BitVec 64) {n : ℕ} (hn : 2 ≤ n) :
    RingInv base n ⟨.initializeWith base n, .idle, ⟨base, true⟩, [], []⟩ 0 0 where
  ringBase := rfl
  bufSize := rfl
  window := Window.zero (by omega) fun _ _ => by show TRB.cycleBit 0 = false; decide
  writeIndex := (Nat.zero_mod n).symm
  cycleBit := (lapBit_of_lt (by omega)).symm
  le := Nat.le_refl 0
  lt := by omega
  dequeue := by
    rw [Nat.zero_mod, Ring.slotAddress_zero]
  cycle := (lapBit_of_lt (by omega)).symm
  consumed := by rw [List.take_nil]
  count := by rw [trbCount_zero]; exact Nat.zero_le _
  noLink := fun _ h => absurd h List.not_mem_nil
  point := by
    refine ⟨?_, by omega, (trbCount_zero n).symm⟩
    rw [Nat.zero_mod]
    omega

/-! ## The producer -/

section Producer

variable {base : BitVec 64} {n W R : ℕ} {s : RingState}

theorem ringContent_append {pushed : List TRB} {v : ℕ} (trb : TRB)
    (hv : v % n + 1 = n ∨ trbCount n v < pushed.length) :
    ringContent base n (pushed ++ [trb]) v = ringContent base n pushed v := by
  unfold ringContent
  rcases hv with hlink | hlt
  · rw [if_pos hlink, if_pos hlink]
  · rw [List.getD_append _ _ _ _ hlt]

/-- A push starts: nothing is stored yet. -/
theorem RingInv.start (h : RingInv base n s W R) (hn : 2 ≤ n) (hidle : s.point = .idle) {trb : TRB}
    (hlink : trb.trbType ≠ LinkTRB.type)
    (hroom : s.pushed.length - s.consumed.length < n - 2) :
    RingInv base n { s with point := .data trb 0, pushed := s.pushed ++ [trb] } W R := by
  have hpoint := h.point
  unfold PointInv at hpoint
  rw [hidle] at hpoint
  obtain ⟨hslot, hW, hlength⟩ := hpoint
  -- the controller has consumed enough for the slot, and for the link behind it, to be free
  have hcount := h.count
  rw [h.length_consumed, hlength] at hroom
  obtain ⟨hfree, hfree'⟩ := room_of_count h.le hW hslot hroom
  refine { h with
    window := h.window.congr fun v hv => ?_
    consumed := ?_
    count := ?_
    noLink := ?_
    point := ?_ }
  · refine (ringContent_append trb ?_).symm
    by_cases hvlink : v % n + 1 = n
    · exact .inl hvlink
    · have hmod := Nat.mod_lt v (show 0 < n by omega)
      rw [hlength]
      exact .inr (trbCount_lt (by omega) (by omega) hv)
  · rw [h.consumed, List.take_append_of_le_length hcount]
  · rw [List.length_append]
    omega
  · intro t ht
    rcases List.mem_append.mp ht with hold | hnew
    · exact h.noLink t hold
    · rw [List.mem_singleton.mp hnew]
      exact hlink
  · refine ⟨hslot, hfree, hfree', ?_, ?_, fun i hi => absurd hi (Nat.not_lt_zero _)⟩
    · rw [List.length_append, hlength]
      rfl
    · rw [← hlength, List.getElem?_concat_length]

theorem fin_lt_succ : ∀ {i word : Fin 4}, word < 3 → i < word + 1 → i < word ∨ i = word := by
  decide

theorem fin_eq_three : ∀ {word : Fin 4}, ¬ word < 3 → word = 3 := by decide

/-- The words before the last one leave the slot as it is for the consumer. -/
theorem window_storeWord {r : Ring} {content : ℕ → TRB} {data : TRB} {word : Fin 4}
    (h : Window n TRB.cycleBit content r.buf W) (hindex : r.writeIndex = W % n)
    (hword : word < 3) (hbefore : ∀ i, i < word → r.buf (W % n) i = data i) :
    Window n TRB.cycleBit content (r.storeWord data word).buf W ∧
      ∀ i, i < word + 1 → (r.storeWord data word).buf (W % n) i = data i := by
  have hne : word ≠ 3 := fun heq => absurd (heq ▸ hword) (by decide)
  have hbuf : (r.storeWord data word).buf =
      Function.update r.buf (W % n) (Function.update (r.buf (W % n)) word (data word)) := by
    rw [Ring.storeWord_eq, TRB.stamped_of_ne _ _ hne, hindex]
  rw [hbuf]
  constructor
  · apply h.touch
    unfold TRB.cycleBit
    rw [Function.update_of_ne (Ne.symm hne)]
  · intro i hi
    rw [Function.update_self]
    rcases fin_lt_succ hword hi with hlt | rfl
    · rw [Function.update_of_ne (Fin.ne_of_lt hlt), hbefore i hlt]
    · rw [Function.update_self]

/-- The last word completes the slot. -/
theorem window_storeLast {r : Ring} {content : ℕ → TRB} {data : TRB}
    (h : Window n TRB.cycleBit content r.buf W) (hn : 2 ≤ n) (hindex : r.writeIndex = W % n)
    (hbefore : ∀ i, i < 3 → r.buf (W % n) i = data i)
    (hcontent : content W = data.stamped r.cycleBit)
    (hstamp : ∀ v, (content v).cycleBit = lapBit n v) :
    Window n TRB.cycleBit content (r.storeWord data 3).buf (W + 1) := by
  have hcell : Function.update (r.buf (W % n)) 3 (data.stamped r.cycleBit 3) = content W := by
    rw [hcontent]
    funext i
    by_cases hi : i = 3
    · rw [hi, Function.update_self]
    · have hlt : i < 3 := by
        by_contra hge
        exact hi (fin_eq_three hge)
      rw [Function.update_of_ne hi, TRB.stamped_of_ne _ _ hi, hbefore i hlt]
  rw [Ring.storeWord_eq, hindex, hcell]
  exact h.advance (by omega) fun v _ => hstamp v

/-- A store of a TRB. -/
theorem RingInv.stepData (h : RingInv base n s W R) (hn : 2 ≤ n) {trb : TRB} {word : Fin 4}
    (hdata : s.point = .data trb word) :
    ∃ W', RingInv base n
      { s with ring := (s.ring.step s.point).1, point := (s.ring.step s.point).2 } W' R := by
  have hpoint := h.point
  unfold PointInv at hpoint
  rw [hdata] at hpoint
  obtain ⟨hslot, hW, hW', hlength, htrb, hbefore⟩ := hpoint
  rw [hdata]
  unfold Ring.step
  -- the first three words do not show yet, and the last one publishes the TRB
  by_cases hword : word < 3
  · obtain ⟨hwindow, hwords⟩ := window_storeWord h.window h.writeIndex hword hbefore
    simp only [if_pos hword]
    refine ⟨W, { h with window := hwindow, point := ?_ }⟩
    exact ⟨hslot, hW, hW', hlength, htrb, hwords⟩
  · have hlast := fin_eq_three hword
    subst hlast
    have hcontent : ringContent base n s.pushed W = trb.stamped s.ring.cycleBit := by
      unfold ringContent
      rw [if_neg (by omega), h.cycleBit, List.getD_eq_getElem?_getD, htrb, Option.getD_some]
    have hwindow := window_storeLast h.window hn h.writeIndex hbefore hcontent
      (cycleBit_ringContent base n s.pushed)
    have hcount := trbCount_succ (show 0 < n by omega) W
    rw [if_pos hslot] at hcount
    rcases succ_cases (show 0 < n by omega) W with ⟨-, hmod, -, hbit⟩ | ⟨hfull, -⟩
    · simp only [if_neg hword, Ring.storeWord_writeIndex, Ring.storeWord_bufSize, h.writeIndex,
        h.bufSize]
      have hle := h.le
      -- behind the last TRB of a lap the link follows
      by_cases hlink : W % n + 1 = n - 1
      · rw [if_pos hlink]
        exact ⟨W + 1, { h with
          bufSize := rfl
          window := hwindow
          writeIndex := hmod.symm
          cycleBit := h.cycleBit.trans hbit.symm
          le := by omega
          lt := hW
          point := ⟨by rw [hmod]; omega, hW' (by omega), hlength.trans hcount.symm,
            fun i hi => absurd hi (Nat.not_lt_zero _)⟩ }⟩
      · rw [if_neg hlink]
        exact ⟨W + 1, { h with
          bufSize := rfl
          window := hwindow
          writeIndex := hmod.symm
          cycleBit := h.cycleBit.trans hbit.symm
          le := by omega
          lt := hW
          point := ⟨by rw [hmod]; omega, hW, hlength.trans hcount.symm⟩ }⟩
    · omega

/-- A store of the link. -/
theorem RingInv.stepLink (h : RingInv base n s W R) (hn : 2 ≤ n) {word : Fin 4}
    (hlink : s.point = .link word) :
    ∃ W', RingInv base n
      { s with ring := (s.ring.step s.point).1, point := (s.ring.step s.point).2 } W' R := by
  have hpoint := h.point
  unfold PointInv at hpoint
  rw [hlink] at hpoint
  obtain ⟨hslot, hW, hlength, hbefore⟩ := hpoint
  rw [hlink]
  unfold Ring.step
  simp only [h.ringBase]
  -- the link is published by its last word, which starts the next lap
  by_cases hword : word < 3
  · obtain ⟨hwindow, hwords⟩ := window_storeWord h.window h.writeIndex hword hbefore
    simp only [if_pos hword]
    exact ⟨W, { h with
      window := hwindow
      point := ⟨hslot, hW, hlength, hwords⟩ }⟩
  · have hlast := fin_eq_three hword
    subst hlast
    have hcontent : ringContent base n s.pushed W =
        (LinkTRB.toSegment base).stamped s.ring.cycleBit := by
      unfold ringContent
      rw [if_pos hslot, h.cycleBit]
    have hwindow := window_storeLast h.window hn h.writeIndex hbefore hcontent
      (cycleBit_ringContent base n s.pushed)
    have hcount := trbCount_succ (show 0 < n by omega) W
    rw [if_neg (by omega)] at hcount
    rcases succ_cases (show 0 < n by omega) W with ⟨hlt, -⟩ | ⟨-, hmod, -, hbit⟩
    · omega
    · have hle := h.le
      simp only [if_neg hword]
      exact ⟨W + 1, { h with
        window := hwindow
        writeIndex := hmod.symm
        cycleBit := by
          show (!s.ring.cycleBit) = _
          rw [h.cycleBit, hbit]
        le := by omega
        lt := hW
        point := ⟨by rw [hmod]; omega, hW, hlength.trans hcount.symm⟩ }⟩

end Producer

/-! ## The consumer -/

section Consumer

variable {base : BitVec 64} {n W R : ℕ} {s : RingState}

theorem trbAt_slotAddress {r : Ring} {i : ℕ} (hi : sizeofTRB * i < 2 ^ 64) :
    r.trbAt (Ring.slotAddress r.base i) = r.buf i := by
  unfold Ring.trbAt
  rw [Ring.slotAddress_slot _ hi]

/-- The consumer is not blocked exactly while it is behind the producer, and reads what is at
its position. -/
theorem RingInv.trbAt (h : RingInv base n s W R) (hn : 2 ≤ n) (hfit : sizeofTRB * n ≤ 2 ^ 64) :
    ((s.ring.trbAt s.consumer.dequeue).cycleBit = s.consumer.cycle ↔ R < W) ∧
      (R < W → s.ring.trbAt s.consumer.dequeue = ringContent base n s.pushed R) := by
  have hmod : R % n < n := Nat.mod_lt R (by omega)
  have hoffset : sizeofTRB * (R % n) < 2 ^ 64 := by
    unfold sizeofTRB at hfit ⊢
    omega
  have hat : s.ring.trbAt s.consumer.dequeue = s.ring.buf (R % n) := by
    rw [h.dequeue, ← h.ringBase]
    exact trbAt_slotAddress hoffset
  rw [hat, h.cycle]
  exact ⟨h.window.stamp_eq_iff (fun v _ => cycleBit_ringContent base n s.pushed v) h.le h.lt,
    fun hlt => h.window.recent R hlt h.lt⟩

theorem PointInv.mono {R' : ℕ} (h : PointInv base n s W R) (hle : R ≤ R') :
    PointInv base n s W R' := by
  unfold PointInv at h ⊢
  split
  · next hidle =>
    rw [hidle] at h
    obtain ⟨hslot, hW, hlength⟩ := h
    exact ⟨hslot, by omega, hlength⟩
  · next hdata =>
    rw [hdata] at h
    obtain ⟨hslot, hW, hW', hrest⟩ := h
    exact ⟨hslot, by omega, by omega, hrest⟩
  · next hlink =>
    rw [hlink] at h
    obtain ⟨hslot, hW, hrest⟩ := h
    exact ⟨hslot, by omega, hrest⟩

/-- The TRBs before the producer are those written. -/
theorem RingInv.trbCount_eq_written (h : RingInv base n s W R) : trbCount n W = s.written := by
  have hpoint := h.point
  unfold PointInv at hpoint
  unfold RingState.written
  split at hpoint
  · next hidle =>
    rw [hidle]
    exact hpoint.2.2.symm
  · next hdata =>
    rw [hdata]
    obtain ⟨-, -, -, hlength, -⟩ := hpoint
    show _ = s.pushed.length - 1
    rw [hlength, Nat.add_sub_cancel]
  · next hlink =>
    rw [hlink]
    exact hpoint.2.2.1.symm

theorem RingState.written_le (s : RingState) : s.written ≤ s.pushed.length := by
  unfold RingState.written
  split
  · exact Nat.sub_le _ _
  · exact Nat.le_refl _

/-- The consumer reads what is at its position. -/
theorem RingInv.consumer_step (h : RingInv base n s W R) (hn : 2 ≤ n)
    (hfit : sizeofTRB * n ≤ 2 ^ 64) (hlt : R < W) :
    s.consumer.step s.ring =
      let trb := ringContent base n s.pushed R
      if trb.trbType = LinkTRB.type then
        some (none, ⟨trb.pointer,
          if LinkTRB.toggleCycle trb then !s.consumer.cycle else s.consumer.cycle⟩)
      else
        some (some trb, ⟨s.consumer.dequeue + BitVec.ofNat 64 sizeofTRB, s.consumer.cycle⟩) := by
  obtain ⟨hbit, hread⟩ := h.trbAt hn hfit
  have hcycle := hbit.mpr hlt
  rw [hread hlt] at hcycle
  unfold RingConsumer.step
  simp only [hread hlt, hcycle, ne_eq, not_true_eq_false, if_false]

/-- A TRB that was pushed is consumed. -/
theorem RingInv.consume_data (h : RingInv base n s W R) (hn : 2 ≤ n)
    (hfit : sizeofTRB * n ≤ 2 ^ 64) (hlt : R < W) (hslot : R % n + 1 < n) :
    ∃ trb c, s.consumer.step s.ring = some (some trb, c) ∧
      RingInv base n { s with consumer := c, consumed := s.consumed ++ [trb] } W (R + 1) := by
  have hW := h.lt
  have hcount := trbCount_succ (show 0 < n by omega) R
  rw [if_pos hslot] at hcount
  -- a slot that was written and is no link has a TRB that was pushed
  have hnext : trbCount n R < s.pushed.length := by
    have hlater := trbCount_lt (show 0 < n by omega) hslot hlt
    rw [h.trbCount_eq_written] at hlater
    exact Nat.lt_of_lt_of_le hlater s.written_le
  have hcontent : ringContent base n s.pushed R =
      s.pushed[trbCount n R].stamped (lapBit n R) := by
    unfold ringContent
    rw [if_neg (by omega), List.getD_eq_getElem _ _ hnext]
  have htype : (ringContent base n s.pushed R).trbType ≠ LinkTRB.type := by
    rw [hcontent, TRB.trbType_stamped]
    exact h.noLink _ (List.getElem_mem hnext)
  rcases succ_cases (show 0 < n by omega) R with ⟨-, hmod, -, hlap⟩ | ⟨hlast, -⟩
  · rw [h.consumer_step hn hfit hlt]
    simp only [if_neg htype]
    refine ⟨ringContent base n s.pushed R, _, rfl, { h with
      le := hlt
      lt := by omega
      dequeue := ?_
      cycle := h.cycle.trans hlap.symm
      consumed := ?_
      count := by rw [hcount]; exact hnext
      point := h.point.mono (Nat.le_succ R) }⟩
    · show s.consumer.dequeue + _ = _
      rw [h.dequeue, hmod, Ring.slotAddress_succ]
    · rw [List.map_append, h.consumed, hcount, List.take_succ_eq_append_getElem hnext,
        List.map_append, hcontent, List.map_singleton, List.map_singleton, TRB.payload_stamped]
  · omega

/-- The link takes the consumer back to the first slot. -/
theorem RingInv.consume_link (h : RingInv base n s W R) (hn : 2 ≤ n)
    (hfit : sizeofTRB * n ≤ 2 ^ 64) (halign : base.extractLsb' 0 4 = 0#4) (hlt : R < W)
    (hlast : R % n + 1 = n) :
    ∃ c, s.consumer.step s.ring = some (none, c) ∧
      RingInv base n { s with consumer := c } W (R + 1) := by
  have hW := h.lt
  have hcount := trbCount_succ (show 0 < n by omega) R
  rw [if_neg (by omega)] at hcount
  have hcontent : ringContent base n s.pushed R =
      (LinkTRB.toSegment base).stamped (lapBit n R) := by
    unfold ringContent
    rw [if_pos hlast]
  have htype : (ringContent base n s.pushed R).trbType = LinkTRB.type := by
    rw [hcontent, TRB.trbType_stamped, LinkTRB.trbType_toSegment]
  rcases succ_cases (show 0 < n by omega) R with ⟨hslot, -⟩ | ⟨-, hmod, -, hlap⟩
  · omega
  · rw [h.consumer_step hn hfit hlt]
    simp only [if_pos htype]
    -- the link has the address of the first slot and the toggle bit
    rw [hcontent, LinkTRB.toggleCycle_toSegment, LinkTRB.pointer_toSegment _ halign, if_pos rfl]
    refine ⟨_, rfl, { h with
      le := hlt
      lt := by omega
      dequeue := ?_
      cycle := ?_
      consumed := by rw [h.consumed, hcount]
      count := by rw [hcount]; exact h.count
      point := h.point.mono (Nat.le_succ R) }⟩
    · show base = _
      rw [hmod, Ring.slotAddress_zero]
    · show (!s.consumer.cycle) = _
      rw [h.cycle, hlap]

/-- A step of the consumer goes on by one position. -/
theorem RingInv.consume (h : RingInv base n s W R) (hn : 2 ≤ n) (hfit : sizeofTRB * n ≤ 2 ^ 64)
    (halign : base.extractLsb' 0 4 = 0#4) (hlt : R < W) :
    ∃ trb c, s.consumer.step s.ring = some (trb, c) ∧
      trb.toList.length = (if R % n + 1 < n then 1 else 0) ∧
      RingInv base n { s with consumer := c, consumed := s.consumed ++ trb.toList } W (R + 1) := by
  rcases succ_cases (show 0 < n by omega) R with ⟨hslot, -⟩ | ⟨hlast, -⟩
  · obtain ⟨trb, c, hstep, hinv⟩ := h.consume_data hn hfit hlt hslot
    exact ⟨some trb, c, hstep, by rw [if_pos hslot]; rfl, hinv⟩
  · obtain ⟨c, hstep, hinv⟩ := h.consume_link hn hfit halign hlt hlast
    refine ⟨none, c, hstep, by rw [if_neg (by omega)]; rfl, ?_⟩
    rw [Option.toList_none, List.append_nil]
    exact hinv

end Consumer

/-! ## Runs -/

section Runs

variable {base : BitVec 64} {n : ℕ} {s t : RingState}

theorem ringInv_step (hn : 2 ≤ n) (hfit : sizeofTRB * n ≤ 2 ^ 64)
    (halign : base.extractLsb' 0 4 = 0#4) (h : ∃ W R, RingInv base n s W R)
    (hstep : (ringSystem base n).step s t) : ∃ W R, RingInv base n t W R := by
  obtain ⟨W, R, hinv⟩ := h
  cases hstep with
  | start trb hidle hlink hroom => exact ⟨W, R, hinv.start hn hidle hlink hroom⟩
  | store hbusy =>
    rcases hpoint : s.point with _ | ⟨trb, word⟩ | word
    · exact absurd hpoint hbusy
    · rw [← hpoint]
      obtain ⟨W', hinv'⟩ := hinv.stepData hn hpoint
      exact ⟨W', R, hinv'⟩
    · rw [← hpoint]
      obtain ⟨W', hinv'⟩ := hinv.stepLink hn hpoint
      exact ⟨W', R, hinv'⟩
  | consume hread =>
    have hbehind : R < W := by
      apply (hinv.trbAt hn hfit).1.mp
      by_contra hbit
      unfold RingConsumer.step at hread
      rw [if_pos hbit] at hread
      exact absurd hread (Option.some_ne_none _).symm
    obtain ⟨trb', c', hread', -, hinv'⟩ := hinv.consume hn hfit halign hbehind
    obtain ⟨rfl, rfl⟩ := Prod.mk.injEq .. ▸ Option.some.inj (hread.symm.trans hread')
    exact ⟨W, R + 1, hinv'⟩

theorem ringInv_of_reachable (hn : 2 ≤ n) (hfit : sizeofTRB * n ≤ 2 ^ 64)
    (halign : base.extractLsb' 0 4 = 0#4) (h : (ringSystem base n).Reachable s) :
    ∃ W R, RingInv base n s W R := by
  refine h.invariant (fun s hs => ⟨0, 0, ?_⟩) fun s t _ hs hst =>
    ringInv_step hn hfit halign hs hst
  rw [show s = _ from hs]
  exact ringInv_init base hn

/-- While a written TRB is unconsumed the consumer reads one, behind a link perhaps. -/
theorem RingInv.progress {W R : ℕ} (h : RingInv base n s W R) (hn : 2 ≤ n)
    (hfit : sizeofTRB * n ≤ 2 ^ 64) (halign : base.extractLsb' 0 4 = 0#4)
    (hbehind : s.consumed.length < s.written) :
    ∃ c trb c', (c = s.consumer ∨ s.consumer.step s.ring = some (none, c)) ∧
      c.step s.ring = some (some trb, c') := by
  have hlt : R < W := by
    rw [h.length_consumed, ← h.trbCount_eq_written] at hbehind
    by_contra hge
    exact absurd (trbCount_mono (show 0 < n by omega) (Nat.le_of_not_lt hge)) (by omega)
  obtain ⟨trb, c, hread, hlength, h'⟩ := h.consume hn hfit halign hlt
  cases trb with
  | some trb => exact ⟨_, trb, c, .inl rfl, hread⟩
  | none =>
    -- behind the link there is a TRB, and not another link
    have hlast : ¬ R % n + 1 < n := by
      intro hslot
      rw [if_pos hslot] at hlength
      exact absurd hlength (by decide)
    have hcount := trbCount_succ (show 0 < n by omega) R
    rw [if_neg hlast] at hcount
    rcases succ_cases (show 0 < n by omega) R with ⟨hslot, -⟩ | ⟨-, hmod, -⟩
    · exact absurd hslot hlast
    have hlt' : R + 1 < W := by
      rcases Nat.lt_or_eq_of_le (Nat.succ_le_of_lt hlt) with hlt' | heq
      · exact hlt'
      · rw [h.length_consumed, ← h.trbCount_eq_written, ← hcount, ← heq] at hbehind
        exact absurd hbehind (Nat.lt_irrefl _)
    obtain ⟨trb, c', hread', hlength', -⟩ := h'.consume hn hfit halign hlt'
    rw [hmod, if_pos (by omega)] at hlength'
    cases trb with
    | some trb => exact ⟨c, trb, c', .inr hread, hread'⟩
    | none => exact absurd hlength' (by decide)

/-- In every state of every run the TRBs consumed are the first of those pushed, in their order
and with all bits but the cycle bit; each of them was stored with all its words before; and none
that was stored is out of the consumer's reach. No caller pushes a Link TRB, as the driver does
not. The stores of one push are those of `Ring.push` by `Ring.steps_push`, and the consumer finds
the first slot in a link by `LinkTRB.pointer_raw`. -/
theorem ring_consumes_pushed (hn : 2 ≤ n) (hfit : sizeofTRB * n ≤ 2 ^ 64)
    (halign : base.extractLsb' 0 4 = 0#4) (h : (ringSystem base n).Reachable s) :
    s.consumed.map TRB.payload = (s.pushed.take s.consumed.length).map TRB.payload ∧
    s.consumed.length ≤ s.written ∧
    (s.consumed.length < s.written →
      ∃ c trb c', (c = s.consumer ∨ s.consumer.step s.ring = some (none, c)) ∧
        c.step s.ring = some (some trb, c')) ∧
    s.ring.writeIndex < n := by
  obtain ⟨W, R, hinv⟩ := ringInv_of_reachable hn hfit halign h
  refine ⟨?_, ?_, hinv.progress hn hfit halign, ?_⟩
  · rw [hinv.length_consumed]
    exact hinv.consumed
  · rw [hinv.length_consumed, ← hinv.trbCount_eq_written]
    exact trbCount_mono (by omega) hinv.le
  · rw [hinv.writeIndex]
    exact Nat.mod_lt W (by omega)

end Runs

/-! ## A lap -/

/-- A step of one of the parties, to be executed. -/
inductive RingAction where
  | start (trb : TRB)
  | store
  | consume

def RingState.act (bufSize : ℕ) (s : RingState) : RingAction → Option RingState
  | .start trb =>
    match s.point with
    | .idle =>
      if trb.trbType ≠ LinkTRB.type ∧ s.pushed.length - s.consumed.length < bufSize - 2 then
        some { s with point := .data trb 0, pushed := s.pushed ++ [trb] }
      else
        none
    | _ => none
  | .store =>
    match s.point with
    | .idle => none
    | point => some { s with ring := (s.ring.step point).1, point := (s.ring.step point).2 }
  | .consume => (s.consumer.step s.ring).map fun read =>
    { s with consumer := read.2, consumed := s.consumed ++ read.1.toList }

theorem RingState.act_step {n : ℕ} (s : RingState) (a : RingAction) (t : RingState)
    (h : s.act n a = some t) : RingStep n s t := by
  cases a with
  | start trb =>
    unfold RingState.act at h
    dsimp only at h
    split at h
    · next hidle =>
      split at h
      · next hcan =>
        obtain rfl := Option.some.inj h
        exact .start trb hidle hcan.1 hcan.2
      · cases h
    · cases h
  | store =>
    unfold RingState.act at h
    dsimp only at h
    split at h
    · cases h
    · next hbusy =>
      obtain rfl := Option.some.inj h
      exact .store hbusy
  | consume =>
    obtain ⟨⟨trb, c⟩, hread, rfl⟩ := Option.map_eq_some_iff.mp h
    exact .consume hread

/-- A push of a TRB with the same words, up to some store. -/
def pushActions (word : BitVec 32) (stores : ℕ) : List RingAction :=
  .start (fun _ => word) :: List.replicate stores .store

/-- Three TRBs are pushed and consumed, with the link behind the second one, and of a fourth one a
word is stored. -/
def lapActions : List RingAction :=
  [pushActions 1#32 4, [.consume], pushActions 2#32 8, [.consume, .consume], pushActions 3#32 4,
    [.consume], pushActions 4#32 1].flatten

/-- A ring of three slots, in its second lap. -/
theorem ring_consumes_pushed_lap :
    ∃ s, (ringSystem 0x1000#64 3).Reachable s ∧
      (s.consumed.length = 3 ∧ s.pushed.length = 4 ∧ s.consumer.cycle = false) ∧
      s.consumed.map TRB.payload = (s.pushed.take s.consumed.length).map TRB.payload ∧
      s.consumed.length ≤ s.written ∧
      (s.consumed.length < s.written →
        ∃ c trb c', (c = s.consumer ∨ s.consumer.step s.ring = some (none, c)) ∧
          c.step s.ring = some (some trb, c')) ∧
      s.ring.writeIndex < 3 := by
  have hrun : (lapActions.foldlM (RingState.act 3)
      ⟨.initializeWith 0x1000#64 3, .idle, ⟨0x1000#64, true⟩, [], []⟩).map
        (fun s => (s.consumed.length, s.pushed.length, s.consumer.cycle)) = some (3, 4, false) := by
    decide +kernel
  obtain ⟨s, hs, hsame⟩ := Option.map_eq_some_iff.mp hrun
  simp only [Prod.mk.injEq] at hsame
  have hreach := TransitionSystem.Reachable.foldlM (T := ringSystem 0x1000#64 3)
    RingState.act_step (.start rfl) hs
  exact ⟨s, hreach, hsame, ring_consumes_pushed (by decide) (by decide) (by decide) hreach⟩

end TommyOS.Usb
