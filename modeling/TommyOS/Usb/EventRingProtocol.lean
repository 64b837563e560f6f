import TommyOS.Lib.CycleRing
import TommyOS.Lib.TransitionSystem
import TommyOS.Usb.EventRing
import Mathlib.Data.List.GetD

/-!
# The event ring between the controller and the driver

The stores of the controller interleaved with the steps of `ProcessEvent`. The positions of
both are counted over all laps. The driver keeps its own in `cycle_bit_` and `ERDP`; the
controller sees it in `ERDP` only.
-/

namespace TommyOS.Usb

open CycleRing

/-- The slot the controller fills next, and its cycle state. -/
structure EventProducer where
  enqueue : ℕ
  cycle : Bool

/-- The next slot in a segment of some size. -/
def EventProducer.next (p : EventProducer) (size : ℕ) : EventProducer :=
  if p.enqueue + 1 = size then ⟨0, !p.cycle⟩ else ⟨p.enqueue + 1, p.cycle⟩

/-- The store of a word of a slot by the controller. -/
def EventRing.storeWord (er : EventRing) (i : ℕ) (word : Fin 4) (value : BitVec 32) : EventRing :=
  { er with buf := Function.update er.buf i (Function.update (er.buf i) word value) }

/-- The event ring with both its parties: the event that is being written with the words of it
that are stored, the events posted, and those a handler was called for. -/
structure EventRingState where
  ring : EventRing
  producer : EventProducer
  posting : Option (TRB × List (Fin 4))
  point : ProcessPoint
  posted : List TRB
  dispatched : List (TRB × Error)

/-- The steps of both parties. The controller does not fill the slot before the dequeue
pointer, stores the word with the cycle bit last, and may change the bits of `ERDP` beside
the pointer. The handlers may return what they like. -/
inductive EventRingStep (s : EventRingState) : EventRingState → Prop where
  | start (trb : TRB) : s.posting = none →
      Ring.slotAddress s.ring.erst.ringSegmentBaseAddress
        (s.producer.next s.ring.erst.ringSegmentSize.toNat).enqueue ≠ s.ring.readDequeuePointer →
      EventRingStep s { s with posting := some (trb, []) }
  | store {trb : TRB} {stored : List (Fin 4)} (i : Fin 4) : s.posting = some (trb, stored) →
      i ≠ 3 →
      EventRingStep s
        { s with
          ring := s.ring.storeWord s.producer.enqueue i (trb i)
          posting := some (trb, i :: stored) }
  | post {trb : TRB} {stored : List (Fin 4)} : s.posting = some (trb, stored) →
      (∀ i, i ≠ 3 → i ∈ stored) →
      EventRingStep s
        { s with
          ring := s.ring.storeWord s.producer.enqueue 3 (trb.stamped s.producer.cycle 3)
          producer := s.producer.next s.ring.erst.ringSegmentSize.toNat
          posting := none
          posted := s.posted ++ [trb] }
  | erdp (erdp : BitVec 64) : ERDP.pointer erdp = s.ring.readDequeuePointer →
      EventRingStep s
        { s with
          ring := { s.ring with interrupter := { s.ring.interrupter with erdp := erdp } } }
  | process (handlers : EventHandlers) :
      EventRingStep s
        { s with
          ring := (s.ring.processStep handlers s.point).1
          point := (s.ring.processStep handlers s.point).2.1
          dispatched := s.dispatched ++ (s.ring.processStep handlers s.point).2.2.toList }

/-- An event ring of some slots, from its initialization on. -/
def eventRingSystem (bufAddress erstAddress : BitVec 64) (bufSize : ℕ)
    (interrupter : InterrupterRegisterSet) : TransitionSystem EventRingState where
  init s :=
    s = ⟨.initializeWith bufAddress erstAddress bufSize interrupter, ⟨0, true⟩, none, .idle,
      [], []⟩
  step := EventRingStep

/-- The number of events `ProcessEvent` has done with. -/
def EventRingState.processed (s : EventRingState) : ℕ :=
  match s.point with
  | .pop _ => s.dispatched.length - 1
  | _ => s.dispatched.length

/-! ## The dequeue pointer -/

theorem ERDP.pointer_setPointer (erdp : BitVec 64) {value : BitVec 64}
    (halign : value.extractLsb' 0 4 = 0#4) : ERDP.pointer (ERDP.setPointer erdp value) = value := by
  have hshift : ERDP.setPointer erdp value >>> 4 = value >>> 4 := by
    unfold ERDP.setPointer
    apply BitVec.eq_of_getLsbD_eq
    intro j hj
    rw [BitVec.getLsbD_ushiftRight, BitVec.getLsbD_ushiftRight, BitVec.getLsbD_append,
      if_neg (by omega), BitVec.getLsbD_extractLsb', Nat.add_sub_cancel_left]
    by_cases hin : j < 60
    · simp [hin]
    · rw [BitVec.getLsbD_of_ge value (4 + j) (by omega), Bool.and_false]
  unfold ERDP.pointer
  rw [hshift, LinkTRB.shift_aligned halign]

/-- Every slot of an aligned buffer is aligned. -/
theorem slotAddress_aligned {base : BitVec 64} (halign : base.extractLsb' 0 4 = 0#4) (i : ℕ) :
    (Ring.slotAddress base i).extractLsb' 0 4 = 0#4 := by
  have hbase := congrArg BitVec.toNat halign
  rw [BitVec.extractLsb'_toNat, Nat.shiftRight_zero, BitVec.toNat_zero] at hbase
  apply BitVec.eq_of_toNat_eq
  unfold Ring.slotAddress sizeofTRB
  rw [BitVec.extractLsb'_toNat, Nat.shiftRight_zero, BitVec.toNat_zero, BitVec.toNat_add,
    BitVec.toNat_ofNat]
  omega

/-! ## The invariant -/

/-- The event at a position, as it is in its slot. -/
def eventContent (n : ℕ) (posted : List TRB) (v : ℕ) : TRB :=
  (posted.getD v 0).stamped (lapBit n v)

theorem cycleBit_eventContent (n : ℕ) (posted : List TRB) (v : ℕ) :
    (eventContent n posted v).cycleBit = lapBit n v :=
  TRB.cycleBit_stamped _ _

/-- What was called for the event at the dequeue pointer. -/
def ProcessInv (s : EventRingState) (R : ℕ) : Prop :=
  match s.point with
  | .idle => s.dispatched.length = R
  | .front => s.dispatched.length = R ∧ R < s.posted.length
  | .pop _ => s.dispatched.length = R + 1 ∧ R < s.posted.length

/-- The driver is at position `R`, the controller behind all events it posted. -/
structure EventRingInv (base : BitVec 64) (n : ℕ) (s : EventRingState) (R : ℕ) : Prop where
  erst : s.ring.erst = ⟨base, BitVec.ofNat 16 n⟩
  window : Window n TRB.cycleBit (eventContent n s.posted) s.ring.buf s.posted.length
  producer : s.producer = ⟨s.posted.length % n, lapBit n s.posted.length⟩
  dequeue : s.ring.readDequeuePointer = Ring.slotAddress base (R % n)
  cycleBit : s.ring.cycleBit = lapBit n R
  le : R ≤ s.posted.length
  lt : s.posted.length < R + n
  point : ProcessInv s R
  dispatched : s.dispatched.map (fun d => d.1.payload) =
    (s.posted.take s.dispatched.length).map TRB.payload
  posting : ∀ trb stored, s.posting = some (trb, stored) →
    s.posted.length + 1 < R + n ∧
      ∀ i ∈ stored, s.ring.buf (s.posted.length % n) i = trb i

section Invariant

variable {base : BitVec 64} {n R : ℕ} {s : EventRingState}

theorem offset_lt (hn : n < 2 ^ 16) {i : ℕ} (hi : i ≤ n) : sizeofTRB * i < 2 ^ 64 := by
  unfold sizeofTRB
  omega

theorem eventRingInv_init {bufAddress : BitVec 64} (erstAddress : BitVec 64)
    (interrupter : InterrupterRegisterSet) (hn : 2 ≤ n)
    (halign : bufAddress.extractLsb' 0 4 = 0#4) :
    EventRingInv bufAddress n
      ⟨.initializeWith bufAddress erstAddress n interrupter, ⟨0, true⟩, none, .idle, [], []⟩ 0 where
  erst := rfl
  window := Window.zero (by omega) fun _ _ => by show TRB.cycleBit 0 = false; decide
  producer := by rw [List.length_nil, Nat.zero_mod, lapBit_of_lt (by omega)]
  dequeue := by
    rw [Nat.zero_mod, Ring.slotAddress_zero]
    exact ERDP.pointer_setPointer _ halign
  cycleBit := (lapBit_of_lt (by omega)).symm
  le := Nat.le_refl 0
  lt := by show 0 < 0 + n; omega
  point := rfl
  dispatched := rfl
  posting := fun _ _ h => absurd h (by simp)

/-- The slot size in the segment table is the size of the buffer. -/
theorem EventRingInv.segmentSize (h : EventRingInv base n s R) (hn : n < 2 ^ 16) :
    s.ring.erst.ringSegmentSize.toNat = n := by
  rw [h.erst]
  show (BitVec.ofNat 16 n).toNat = n
  rw [BitVec.toNat_ofNat, Nat.mod_eq_of_lt hn]

/-- `Front` is the slot of the position of the driver. -/
theorem EventRingInv.front (h : EventRingInv base n s R) (hn : 2 ≤ n) (hn' : n < 2 ^ 16) :
    s.ring.front = s.ring.buf (R % n) := by
  unfold EventRing.front
  rw [h.dequeue, h.erst,
    Ring.slotAddress_slot base (offset_lt hn' (Nat.le_of_lt (Nat.mod_lt R (by omega))))]

/-- `HasFront` tells whether the driver is behind the controller. -/
theorem EventRingInv.hasFront (h : EventRingInv base n s R) (hn : 2 ≤ n) (hn' : n < 2 ^ 16) :
    s.ring.hasFront = true ↔ R < s.posted.length := by
  unfold EventRing.hasFront
  rw [h.front hn hn', h.cycleBit, beq_iff_eq]
  exact h.window.stamp_eq_iff (fun v _ => cycleBit_eventContent n s.posted v) h.le h.lt

theorem EventRingInv.processed (h : EventRingInv base n s R) : s.processed = R := by
  have hpoint := h.point
  unfold ProcessInv at hpoint
  unfold EventRingState.processed
  split at hpoint
  · next hidle =>
    rw [hidle]
    exact hpoint
  · next hfront =>
    rw [hfront]
    exact hpoint.1
  · next hpop =>
    rw [hpop]
    show s.dispatched.length - 1 = R
    rw [hpoint.1, Nat.add_sub_cancel]

theorem EventRingInv.dispatched_le (h : EventRingInv base n s R) :
    s.dispatched.length ≤ s.posted.length := by
  have hpoint := h.point
  unfold ProcessInv at hpoint
  split at hpoint
  · rw [hpoint]
    exact h.le
  · rw [hpoint.1]
    exact h.le
  · rw [hpoint.1]
    exact hpoint.2

/-- The producer goes on as the positions do. -/
theorem producer_next (hn : 0 < n) (v : ℕ) :
    EventProducer.next ⟨v % n, lapBit n v⟩ n = ⟨(v + 1) % n, lapBit n (v + 1)⟩ := by
  unfold EventProducer.next
  rcases succ_cases hn v with ⟨hlt, hmod, -, hbit⟩ | ⟨hlast, hmod, -, hbit⟩
  · rw [if_neg (Nat.ne_of_lt hlt), hmod, hbit]
  · rw [if_pos hlast, hmod, hbit]

/-! ## The controller -/

/-- An event that is started has room. -/
theorem EventRingInv.start (h : EventRingInv base n s R) (hn : 2 ≤ n) (hn' : n < 2 ^ 16)
    (trb : TRB)
    (hfull : Ring.slotAddress s.ring.erst.ringSegmentBaseAddress
      (s.producer.next s.ring.erst.ringSegmentSize.toNat).enqueue ≠ s.ring.readDequeuePointer) :
    EventRingInv base n { s with posting := some (trb, []) } R := by
  rw [h.segmentSize hn', h.producer, producer_next (by omega), h.erst, h.dequeue] at hfull
  refine { h with posting := fun trb' stored hposting => ?_ }
  obtain ⟨rfl, rfl⟩ := Prod.mk.injEq .. ▸ Option.some.inj hposting
  refine ⟨?_, fun i hi => absurd hi List.not_mem_nil⟩
  show s.posted.length + 1 < R + n
  by_contra hge
  have hlt := h.lt
  have hlast : s.posted.length + 1 = R + n := by omega
  apply hfull
  show Ring.slotAddress base ((s.posted.length + 1) % n) = _
  rw [hlast, Nat.add_mod_right]

theorem EventRingInv.store (h : EventRingInv base n s R) {trb : TRB} {stored : List (Fin 4)}
    (hposting : s.posting = some (trb, stored)) {i : Fin 4} (hi : i ≠ 3) :
    EventRingInv base n
      { s with
        ring := s.ring.storeWord s.producer.enqueue i (trb i)
        posting := some (trb, i :: stored) } R := by
  obtain ⟨hroom, hstored⟩ := h.posting trb stored hposting
  have hindex : s.producer.enqueue = s.posted.length % n := by rw [h.producer]
  rw [hindex]
  refine { h with
    window := ?_
    posting := fun trb' stored' hposting' => ?_ }
  · apply h.window.touch
    unfold TRB.cycleBit
    rw [Function.update_of_ne (Ne.symm hi)]
  · obtain ⟨rfl, rfl⟩ := Prod.mk.injEq .. ▸ Option.some.inj hposting'
    refine ⟨hroom, fun j hj => ?_⟩
    show Function.update s.ring.buf _ _ _ j = trb j
    rw [Function.update_self]
    by_cases hji : j = i
    · rw [hji, Function.update_self]
    · rw [Function.update_of_ne hji]
      exact hstored j ((List.mem_cons.mp hj).resolve_left hji)

theorem eventContent_append {posted : List TRB} {v : ℕ} (trb : TRB) (hv : v < posted.length) :
    eventContent n (posted ++ [trb]) v = eventContent n posted v := by
  unfold eventContent
  rw [List.getD_append _ _ _ _ hv]

/-- The word with the cycle bit posts the event. -/
theorem EventRingInv.post (h : EventRingInv base n s R) (hn : 2 ≤ n) (hn' : n < 2 ^ 16) {trb : TRB}
    {stored : List (Fin 4)} (hposting : s.posting = some (trb, stored))
    (hall : ∀ i, i ≠ 3 → i ∈ stored) :
    EventRingInv base n
      { s with
        ring := s.ring.storeWord s.producer.enqueue 3 (trb.stamped s.producer.cycle 3)
        producer := s.producer.next s.ring.erst.ringSegmentSize.toNat
        posting := none
        posted := s.posted ++ [trb] } R := by
  obtain ⟨hroom, hstored⟩ := h.posting trb stored hposting
  have hlength : (s.posted ++ [trb]).length = s.posted.length + 1 := List.length_append
  have hcell : Function.update (s.ring.buf (s.posted.length % n)) 3
      (trb.stamped (lapBit n s.posted.length) 3) =
        eventContent n (s.posted ++ [trb]) s.posted.length := by
    unfold eventContent
    rw [List.getD_append_right _ _ _ _ (Nat.le_refl _), Nat.sub_self, List.getD_cons_zero]
    funext i
    -- the other three words were stored before
    by_cases hi : i = 3
    · rw [hi, Function.update_self]
    · rw [Function.update_of_ne hi, TRB.stamped_of_ne _ _ hi, hstored i (hall i hi)]
  have hwindow : Window n TRB.cycleBit (eventContent n (s.posted ++ [trb])) s.ring.buf
      s.posted.length := h.window.congr fun v hv => (eventContent_append trb hv).symm
  rw [h.segmentSize hn', h.producer, producer_next (by omega)]
  refine { h with
    window := ?_
    producer := by rw [hlength]
    le := by rw [hlength]; exact Nat.le_succ_of_le h.le
    lt := by rw [hlength]; exact hroom
    point := ?_
    dispatched := ?_
    posting := fun _ _ hnone => absurd hnone (by simp) }
  · show Window n TRB.cycleBit _ (Function.update s.ring.buf _ (Function.update _ 3 _)) _
    rw [hcell, hlength]
    exact hwindow.advance (by omega) fun v _ => cycleBit_eventContent n _ v
  · have hpoint := h.point
    unfold ProcessInv at hpoint ⊢
    rw [hlength]
    -- one more event does not change what the driver is about
    split at hpoint
    · next hidle => rw [hidle]; exact hpoint
    · next hfront => rw [hfront]; exact ⟨hpoint.1, Nat.lt_succ_of_lt hpoint.2⟩
    · next hpop => rw [hpop]; exact ⟨hpoint.1, Nat.lt_succ_of_lt hpoint.2⟩
  · rw [List.take_append_of_le_length h.dispatched_le]
    exact h.dispatched

/-- The bits beside the dequeue pointer are of no account. -/
theorem EventRingInv.erdp (h : EventRingInv base n s R) {erdp : BitVec 64}
    (herdp : ERDP.pointer erdp = s.ring.readDequeuePointer) :
    EventRingInv base n
      { s with ring := { s.ring with interrupter := { s.ring.interrupter with erdp := erdp } } }
      R :=
  { h with dequeue := herdp.trans h.dequeue }

/-! ## `ProcessEvent` -/

/-- `Pop` goes on by one position. -/
theorem EventRingInv.pop (h : EventRingInv base n s R) (hn : 2 ≤ n) (hn' : n < 2 ^ 16)
    (halign : base.extractLsb' 0 4 = 0#4) :
    s.ring.pop.buf = s.ring.buf ∧ s.ring.pop.erst = s.ring.erst ∧
      s.ring.pop.readDequeuePointer = Ring.slotAddress base ((R + 1) % n) ∧
      s.ring.pop.cycleBit = lapBit n (R + 1) := by
  have hmod := Nat.mod_lt R (show 0 < n by omega)
  have hp : s.ring.readDequeuePointer + BitVec.ofNat 64 sizeofTRB =
      Ring.slotAddress base (R % n + 1) := by rw [h.dequeue, Ring.slotAddress_succ]
  have hbase : s.ring.erst.ringSegmentBaseAddress = base := by rw [h.erst]
  have hend := Ring.slotAddress_inj base (offset_lt hn' (Nat.succ_le_of_lt hmod))
    (offset_lt hn' (Nat.le_refl n))
  unfold EventRing.pop
  simp only [hp, h.segmentSize hn', hbase]
  rcases succ_cases (show 0 < n by omega) R with ⟨hlt, hnext, -, hbit⟩ | ⟨hlast, hnext, -, hbit⟩
  · rw [if_neg fun heq => Nat.ne_of_lt hlt (hend.mp heq)]
    refine ⟨rfl, rfl, ?_, h.cycleBit.trans hbit.symm⟩
    rw [hnext]
    exact ERDP.pointer_setPointer _ (slotAddress_aligned halign _)
  · rw [if_pos (hend.mpr hlast)]
    refine ⟨rfl, rfl, ?_, ?_⟩
    · rw [hnext, Ring.slotAddress_zero]
      exact ERDP.pointer_setPointer _ halign
    · show (!s.ring.cycleBit) = _
      rw [h.cycleBit, hbit]

/-- What the driver reads there is the next event. -/
theorem EventRingInv.front_payload (h : EventRingInv base n s R) (hn : 2 ≤ n) (hn' : n < 2 ^ 16)
    (hlt : R < s.posted.length) : s.ring.front.payload = s.posted[R].payload := by
  rw [h.front hn hn', h.window.recent R hlt h.lt]
  unfold eventContent
  rw [List.getD_eq_getElem _ _ hlt, TRB.payload_stamped]

/-- A step of `ProcessEvent`. -/
theorem EventRingInv.process (h : EventRingInv base n s R) (hn : 2 ≤ n) (hn' : n < 2 ^ 16)
    (halign : base.extractLsb' 0 4 = 0#4) (handlers : EventHandlers) :
    ∃ R', EventRingInv base n
      { s with
        ring := (s.ring.processStep handlers s.point).1
        point := (s.ring.processStep handlers s.point).2.1
        dispatched := s.dispatched ++ (s.ring.processStep handlers s.point).2.2.toList } R' := by
  have hpoint := h.point
  unfold ProcessInv at hpoint
  split at hpoint
  · next hidle =>
    rw [hidle]
    unfold EventRing.processStep
    simp only [Option.toList_none, List.append_nil]
    -- the driver looks whether there is an event, and goes on only then
    refine ⟨R, { h with point := ?_ }⟩
    by_cases hfront : s.ring.hasFront = true
    · rw [if_pos hfront]
      exact ⟨hpoint, (h.hasFront hn hn').mp hfront⟩
    · rw [if_neg hfront]
      exact hpoint
  · next hfront =>
    obtain ⟨hlength, hlt⟩ := hpoint
    have hread := h.front_payload hn hn' hlt
    rw [hfront]
    -- the event at the front is given to its handler, which leaves the ring
    refine ⟨R, { h with
      point := ?_
      dispatched := ?_ }⟩
    · exact ⟨by rw [← hlength]; exact List.length_append, hlt⟩
    · show (s.dispatched ++ [(s.ring.front, handlers.onEvent s.ring.front)]).map _ =
        (s.posted.take (s.dispatched ++ [_]).length).map TRB.payload
      rw [List.map_append, h.dispatched, List.length_append, hlength, List.length_singleton,
        List.take_succ_eq_append_getElem hlt, List.map_append, List.map_singleton,
        List.map_singleton, hread]
  · next hpop =>
    obtain ⟨hlength, hlt⟩ := hpoint
    obtain ⟨hbuf, herst, hdequeue, hbit⟩ := h.pop hn hn' halign
    rw [hpop]
    unfold EventRing.processStep
    simp only [Option.toList_none, List.append_nil]
    have hroom := h.lt
    -- the dequeue pointer moves on, which frees a slot for the controller
    refine ⟨R + 1, { h with
      erst := herst.trans h.erst
      window := by rw [hbuf]; exact h.window
      dequeue := hdequeue
      cycleBit := hbit
      le := hlt
      lt := by show s.posted.length < _; omega
      point := hlength
      posting := fun trb stored hposting => ?_ }⟩
    obtain ⟨hfree, hstored⟩ := h.posting trb stored hposting
    rw [hbuf]
    exact ⟨by show s.posted.length + 1 < _; omega, hstored⟩

end Invariant

/-! ## Runs -/

section Runs

variable {bufAddress erstAddress : BitVec 64} {n : ℕ} {interrupter : InterrupterRegisterSet}
  {s : EventRingState}

theorem eventRingInv_of_reachable (hn : 2 ≤ n) (hn' : n < 2 ^ 16)
    (halign : bufAddress.extractLsb' 0 4 = 0#4)
    (h : (eventRingSystem bufAddress erstAddress n interrupter).Reachable s) :
    ∃ R, EventRingInv bufAddress n s R := by
  refine h.invariant (P := fun s => ∃ R, EventRingInv bufAddress n s R)
    (fun s hs => ⟨0, ?_⟩) fun s t _ hs hst => ?_
  · rw [show s = _ from hs]
    exact eventRingInv_init erstAddress interrupter hn halign
  · obtain ⟨R, hinv⟩ := hs
    cases hst with
    | start trb _ hfull => exact ⟨R, hinv.start hn hn' trb hfull⟩
    | store i hposting hi => exact ⟨R, hinv.store hposting hi⟩
    | post hposting hall => exact ⟨R, hinv.post hn hn' hposting hall⟩
    | erdp erdp herdp => exact ⟨R, hinv.erdp herdp⟩
    | process handlers => exact hinv.process hn hn' halign handlers

/-- In every state of every run `HasFront` tells whether an event is unprocessed, the events
dispatched are the first of those posted in their order, and a call of `ProcessEvent`
dispatches the next one and is past it, whatever its handler returns. The steps of the runs are
those of such a call by `EventRing.processStep_processEvent`. -/
theorem eventRing_dispatches_posted (hn : 2 ≤ n) (hn' : n ≤ 65535)
    (halign : bufAddress.extractLsb' 0 4 = 0#4)
    (h : (eventRingSystem bufAddress erstAddress n interrupter).Reachable s) :
    (s.ring.hasFront = true ↔ s.processed < s.posted.length) ∧
    s.dispatched.map (fun d => d.1.payload) =
      (s.posted.take s.dispatched.length).map TRB.payload ∧
    s.dispatched.length ≤ s.posted.length ∧
    (s.point = .idle → s.ring.hasFront = false → s.dispatched.length = s.posted.length) ∧
    ∀ hlt : s.processed < s.posted.length,
      s.ring.front.payload = s.posted[s.processed].payload ∧
      ∀ handlers, s.ring.processEvent handlers =
        (handlers.onEvent s.ring.front, s.ring.pop) := by
  have hsize : n < 2 ^ 16 := Nat.lt_succ_of_le hn'
  obtain ⟨R, hinv⟩ := eventRingInv_of_reachable hn hsize halign h
  have hfront := hinv.hasFront hn hsize
  have hprocessed := hinv.processed
  refine ⟨by rw [hfront, hprocessed], hinv.dispatched, hinv.dispatched_le, ?_, ?_⟩
  · intro hidle hempty
    -- without a front the driver has caught up
    have hnone : ¬ R < s.posted.length := fun hlt =>
      absurd (hempty.symm.trans (hfront.mpr hlt)) (by decide)
    have hpoint := hinv.point
    unfold ProcessInv at hpoint
    rw [hidle] at hpoint
    have hle := hinv.le
    rw [hpoint]
    omega
  · intro hlt
    constructor
    · simp only [hprocessed] at hlt ⊢
      exact hinv.front_payload hn hsize hlt
    · intro handlers
      unfold EventRing.processEvent
      rw [if_pos (hfront.mpr (hprocessed ▸ hlt))]

end Runs

/-! ## A wrap -/

/-- A step of one of the parties, to be executed. -/
inductive EventRingAction where
  | start (trb : TRB)
  | store (i : Fin 4)
  | post
  | process (handlers : EventHandlers)

def EventRingState.act (s : EventRingState) : EventRingAction → Option EventRingState
  | .start trb =>
    if s.posting.isNone ∧ Ring.slotAddress s.ring.erst.ringSegmentBaseAddress
        (s.producer.next s.ring.erst.ringSegmentSize.toNat).enqueue ≠ s.ring.readDequeuePointer then
      some { s with posting := some (trb, []) }
    else
      none
  | .store i => s.posting.bind fun (trb, stored) =>
    if i ≠ 3 then
      some { s with
        ring := s.ring.storeWord s.producer.enqueue i (trb i)
        posting := some (trb, i :: stored) }
    else
      none
  | .post => s.posting.bind fun (trb, stored) =>
    if ∀ i, i ≠ 3 → i ∈ stored then
      some { s with
        ring := s.ring.storeWord s.producer.enqueue 3 (trb.stamped s.producer.cycle 3)
        producer := s.producer.next s.ring.erst.ringSegmentSize.toNat
        posting := none
        posted := s.posted ++ [trb] }
    else
      none
  | .process handlers => some { s with
      ring := (s.ring.processStep handlers s.point).1
      point := (s.ring.processStep handlers s.point).2.1
      dispatched := s.dispatched ++ (s.ring.processStep handlers s.point).2.2.toList }

theorem EventRingState.act_step (s : EventRingState) (a : EventRingAction) (t : EventRingState)
    (h : s.act a = some t) : EventRingStep s t := by
  cases a with
  | start trb =>
    unfold EventRingState.act at h
    dsimp only at h
    split at h
    · next hcan =>
      obtain rfl := Option.some.inj h
      exact .start trb (Option.isNone_iff_eq_none.mp hcan.1) hcan.2
    · cases h
  | store i =>
    obtain ⟨⟨trb, stored⟩, hposting, h⟩ := Option.bind_eq_some_iff.mp h
    dsimp only at h
    split at h
    · next hi =>
      obtain rfl := Option.some.inj h
      exact .store i hposting hi
    · cases h
  | post =>
    obtain ⟨⟨trb, stored⟩, hposting, h⟩ := Option.bind_eq_some_iff.mp h
    dsimp only at h
    split at h
    · next hall =>
      obtain rfl := Option.some.inj h
      exact .post hposting hall
    · cases h
  | process handlers =>
    obtain rfl := Option.some.inj h
    exact .process handlers

/-- Each handler fails. -/
def failingHandlers : EventHandlers :=
  ⟨fun _ => .kTransferFailed, fun _ => .kInvalidPhase, fun _ => .kInvalidSlotID⟩

/-- An event is posted word by word. -/
def postActions (trb : TRB) : List EventRingAction :=
  [.start trb, .store 1, .store 0, .store 2, .post]

/-- Three events about a transfer, a port and a command are posted, the first two are dispatched
and popped, and the handler of the third one is called. -/
def wrapActions : List EventRingAction :=
  [postActions ![1#32, 0#32, 0#32, TransferEventTRB.type.setWidth 32 <<< 10],
    List.replicate 3 (.process failingHandlers),
    postActions ![2#32, 0#32, 0#32, PortStatusChangeEventTRB.type.setWidth 32 <<< 10],
    List.replicate 3 (.process failingHandlers),
    postActions ![3#32, 0#32, 0#32, CommandCompletionEventTRB.type.setWidth 32 <<< 10],
    List.replicate 2 (.process failingHandlers)].flatten

/-- A ring of two slots in its second lap. The events were dispatched, though each handler fails. -/
theorem eventRing_dispatches_posted_wrap :
    ∃ s, (eventRingSystem 0x1000#64 0x2000#64 2 ⟨0#32, 0#64, 0#64⟩).Reachable s ∧
      (s.dispatched.map Prod.snd = [.kTransferFailed, .kInvalidPhase, .kInvalidSlotID] ∧
        s.ring.cycleBit = false ∧ s.processed = 2 ∧ s.posted.length = 3) ∧
      (s.ring.hasFront = true ↔ s.processed < s.posted.length) ∧
      s.dispatched.map (fun d => d.1.payload) =
        (s.posted.take s.dispatched.length).map TRB.payload ∧
      s.dispatched.length ≤ s.posted.length ∧
      (s.point = .idle → s.ring.hasFront = false → s.dispatched.length = s.posted.length) ∧
      ∀ hlt : s.processed < s.posted.length,
        s.ring.front.payload = s.posted[s.processed].payload ∧
        ∀ handlers, s.ring.processEvent handlers =
          (handlers.onEvent s.ring.front, s.ring.pop) := by
  have hrun : (wrapActions.foldlM EventRingState.act
      ⟨.initializeWith 0x1000#64 0x2000#64 2 ⟨0#32, 0#64, 0#64⟩, ⟨0, true⟩, none, .idle, [],
        []⟩).map (fun s => (s.dispatched.map Prod.snd, s.ring.cycleBit, s.processed,
          s.posted.length)) =
      some ([.kTransferFailed, .kInvalidPhase, .kInvalidSlotID], false, 2, 3) := by
    decide +kernel
  obtain ⟨s, hs, hsame⟩ := Option.map_eq_some_iff.mp hrun
  simp only [Prod.mk.injEq] at hsame
  have hreach := TransitionSystem.Reachable.foldlM
    (T := eventRingSystem 0x1000#64 0x2000#64 2 ⟨0#32, 0#64, 0#64⟩) EventRingState.act_step
    (.start rfl) hs
  exact ⟨s, hreach, hsame,
    eventRing_dispatches_posted (by decide) (by decide) (by decide) hreach⟩

end TommyOS.Usb
