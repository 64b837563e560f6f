import TommyOS.Error
import TommyOS.Usb.Ring

/-!
# `EventRing` and `ProcessEvent`

The consumer of the event ring. Where it stands is in the register `ERDP`, whose low four bits
belong to the controller; where the ring ends is in the segment table.
-/

namespace TommyOS.Usb

/-! ## Registers -/

namespace ERSTSZ

/-- `SetSize`. -/
def setSize (erstsz : BitVec 32) (value : BitVec 16) : BitVec 32 :=
  erstsz.extractLsb' 16 16 ++ value

end ERSTSZ

namespace ERSTBA

def setPointer (erstba value : BitVec 64) : BitVec 64 := value.extractLsb' 6 58 ++ erstba.setWidth 6

end ERSTBA

namespace ERDP

def pointer (erdp : BitVec 64) : BitVec 64 := erdp >>> 4 <<< 4

/-- `SetPointer` leaves the segment index and the busy bit as they are. -/
def setPointer (erdp value : BitVec 64) : BitVec 64 := value.extractLsb' 4 60 ++ erdp.setWidth 4

end ERDP

/-- The registers of `InterrupterRegisterSet` that the ring uses. -/
structure InterrupterRegisterSet where
  erstsz : BitVec 32
  erstba : BitVec 64
  erdp : BitVec 64

/-! ## `EventRing` -/

structure EventRingSegmentTableEntry where
  ringSegmentBaseAddress : BitVec 64
  ringSegmentSize : BitVec 16

/-- `buf i` is the slot `i` of the buffer, `erst` the only entry of the segment table. -/
structure EventRing where
  buf : ℕ → TRB
  bufSize : ℕ
  cycleBit : Bool
  erst : EventRingSegmentTableEntry
  interrupter : InterrupterRegisterSet

namespace EventRing

def readDequeuePointer (er : EventRing) : BitVec 64 := ERDP.pointer er.interrupter.erdp

def writeDequeuePointer (er : EventRing) (p : BitVec 64) : EventRing :=
  { er with
    interrupter := { er.interrupter with erdp := ERDP.setPointer er.interrupter.erdp p } }

/-- `Initialize`, with the addresses of the buffer and of the table that were allocated. -/
def initializeWith (bufAddress erstAddress : BitVec 64) (bufSize : ℕ)
    (interrupter : InterrupterRegisterSet) : EventRing :=
  let er : EventRing := {
    buf := fun _ => 0
    bufSize := bufSize
    cycleBit := true
    erst := ⟨bufAddress, BitVec.ofNat 16 bufSize⟩
    interrupter := { interrupter with erstsz := ERSTSZ.setSize interrupter.erstsz 1#16 } }
  let er := er.writeDequeuePointer bufAddress
  { er with
    interrupter :=
      { er.interrupter with erstba := ERSTBA.setPointer er.interrupter.erstba erstAddress } }

/-- The TRB at the dequeue pointer. -/
def front (er : EventRing) : TRB :=
  er.buf ((er.readDequeuePointer - er.erst.ringSegmentBaseAddress).toNat / sizeofTRB)

def hasFront (er : EventRing) : Bool := er.front.cycleBit == er.cycleBit

def pop (er : EventRing) : EventRing :=
  let p := er.readDequeuePointer + BitVec.ofNat 64 sizeofTRB
  let segmentBegin := er.erst.ringSegmentBaseAddress
  let segmentEnd := Ring.slotAddress segmentBegin er.erst.ringSegmentSize.toNat
  if p = segmentEnd then
    { er with cycleBit := !er.cycleBit }.writeDequeuePointer segmentBegin
  else
    er.writeDequeuePointer p

end EventRing

/-! ## `ProcessEvent` -/

namespace TransferEventTRB
def type : BitVec 6 := 32#6
end TransferEventTRB

namespace CommandCompletionEventTRB
def type : BitVec 6 := 33#6
end CommandCompletionEventTRB

namespace PortStatusChangeEventTRB
def type : BitVec 6 := 34#6
end PortStatusChangeEventTRB

/-- The three handlers `OnEvent`, by what they return for an event. -/
structure EventHandlers where
  transferEvent : TRB → Error
  portStatusChange : TRB → Error
  commandCompletion : TRB → Error

/-- The `OnEvent` for the type of an event; there is none for other types. -/
def EventHandlers.onEvent (handlers : EventHandlers) (trb : TRB) : Error :=
  if trb.trbType = TransferEventTRB.type then handlers.transferEvent trb
  else if trb.trbType = PortStatusChangeEventTRB.type then handlers.portStatusChange trb
  else if trb.trbType = CommandCompletionEventTRB.type then handlers.commandCompletion trb
  else .kNotImplemented

/-- `ProcessEvent`. -/
def EventRing.processEvent (er : EventRing) (handlers : EventHandlers) : Error × EventRing :=
  if er.hasFront then (handlers.onEvent er.front, er.pop) else (.kSuccess, er)

/-- Where a call of `ProcessEvent` is: before `HasFront`, before the handler, before `Pop`. -/
inductive ProcessPoint where
  | idle
  | front
  | pop (err : Error)

/-- A step of `ProcessEvent`, and the event and the error of its handler if one is called. -/
def EventRing.processStep (er : EventRing) (handlers : EventHandlers) :
    ProcessPoint → EventRing × ProcessPoint × Option (TRB × Error)
  | .idle => (er, if er.hasFront then .front else .idle, none)
  | .front =>
    let err := handlers.onEvent er.front
    (er, .pop err, some (er.front, err))
  | .pop _ => (er.pop, .idle, none)

/-- The steps one after the other are the whole call. -/
theorem EventRing.processStep_processEvent (er : EventRing) (handlers : EventHandlers) :
    (er.hasFront = true →
      er.processStep handlers .idle = (er, .front, none) ∧
      er.processStep handlers .front = (er, .pop (er.processEvent handlers).1,
        some (er.front, (er.processEvent handlers).1)) ∧
      ∀ err, er.processStep handlers (.pop err) = ((er.processEvent handlers).2, .idle, none)) ∧
    (er.hasFront = false →
      er.processStep handlers .idle = ((er.processEvent handlers).2, .idle, none)) := by
  unfold processEvent processStep
  constructor
  · intro hfront
    simp only [if_pos hfront]
    exact ⟨trivial, trivial, fun _ => trivial⟩
  · intro hempty
    rw [hempty]
    rfl

end TommyOS.Usb
