import TommyOS.Lib.TransitionSystem
import TommyOS.Queue.QueueTheorems

/-!
# The main loop and the xHCI interrupt

The loop at the end of `KernelMainNewStack`, one step a program point, together with the
controller, which posts events to the event ring and requests an interrupt, and with the
handler `IntHandlerXHCI`, which runs at any point at which interrupts are enabled. `sti` in
front of `hlt` takes effect after the `hlt`, so the two are one step. An event is any value;
what `ProcessEvent` does with it is not modelled, but it always removes it from the ring.
-/

namespace TommyOS

/-- `Message`. The elements of `main_queue_data` are not initialised, so the type is the
number that the memory holds. -/
structure Message where
  type : ℕ
deriving DecidableEq, Repr

/-- `Message::kInterruptXHCI`. -/
def kInterruptXHCI : ℕ := 0

/-- The program points, named after the operation that is next. -/
inductive ProgramPoint where
  | sti
  | configurePorts
  | cli
  | count
  | stiHlt
  | halted
  | front
  | pop
  | stiSwitch
  | hasFront
  | processEvent
deriving DecidableEq, Repr

/-- The size of `main_queue_data`. -/
def kMainQueueSize : ℕ := 32

structure KernelState (Event : Type) where
  eventRing : List Event
  interruptPending : Bool
  interruptFlag : Bool
  mainQueue : ArrayQueue Message kMainQueueSize
  msg : Message
  next : ProgramPoint

namespace KernelState

variable {Event : Type}

/-- `ProcessEvent`, on the ring: whatever the event and the error, it ends with `Pop`. -/
def processEvent (eventRing : List Event) : List Event := eventRing.tail

/-- One step of `KernelMainNewStack`, from the first `sti` on. A halted processor takes
none. -/
def mainStep (st : KernelState Event) : Option (KernelState Event) :=
  match st.next with
  | .sti => some { st with interruptFlag := true, next := .configurePorts }
  | .configurePorts => some { st with next := .cli }
  | .cli => some { st with interruptFlag := false, next := .count }
  | .count => some { st with next := if st.mainQueue.count = 0 then .stiHlt else .front }
  -- no interrupt comes between `sti` and `hlt`
  | .stiHlt => some { st with interruptFlag := true, next := .halted }
  | .halted => none
  | .front => st.mainQueue.front.map fun msg => { st with msg := msg, next := .pop }
  | .pop => st.mainQueue.pop.map fun (_, q) => { st with mainQueue := q, next := .stiSwitch }
  | .stiSwitch =>
    some { st with
      interruptFlag := true
      next := if st.msg.type = kInterruptXHCI then .hasFront else .cli }
  | .hasFront => some { st with next := if st.eventRing = [] then .cli else .processEvent }
  | .processEvent => some { st with eventRing := processEvent st.eventRing, next := .hasFront }

/-- `IntHandlerXHCI`: the error of a full queue is ignored, and a halted processor goes on
behind the `hlt`. -/
def handlerStep (st : KernelState Event) : Option (KernelState Event) :=
  if st.interruptFlag ∧ st.interruptPending then
    (st.mainQueue.push ⟨kInterruptXHCI⟩).map fun (_, q) =>
      { st with
        mainQueue := q
        interruptPending := false
        next := if st.next = .halted then .cli else st.next }
  else
    none

/-- The controller posts an event and requests an interrupt. -/
def postStep (st : KernelState Event) (event : Event) : KernelState Event :=
  { st with eventRing := st.eventRing ++ [event], interruptPending := true }

/-- Any of the three. -/
inductive Step : KernelState Event → KernelState Event → Prop where
  | main {st st' : KernelState Event} : st.mainStep = some st' → Step st st'
  | handler {st st' : KernelState Event} : st.handlerStep = some st' → Step st st'
  | post {st : KernelState Event} (event : Event) : Step st (st.postStep event)

end KernelState

open KernelState

/-- The kernel from the first `sti` on: the queue is empty and interrupts are disabled. -/
def kernelSystem (Event : Type) : TransitionSystem (KernelState Event) where
  init st := st.eventRing = [] ∧ st.interruptFlag = false ∧ st.next = .sti ∧
    ∃ mainQueueData, st.mainQueue = ArrayQueue.new mainQueueData
  step := Step

/-! ## The invariant -/

/-- Interrupts are disabled at these points. -/
def ProgramPoint.masked : ProgramPoint → Bool
  | .sti | .count | .stiHlt | .front | .pop | .stiSwitch => true
  | _ => false

/-- A message has been popped, and `HasFront` has not returned false since. -/
def ProgramPoint.draining : ProgramPoint → Bool
  | .stiSwitch | .hasFront | .processEvent => true
  | _ => false

/-- `Count` has returned something other than 0. -/
def ProgramPoint.counted : ProgramPoint → Bool
  | .front | .pop => true
  | _ => false

/-- `Count` has returned 0. -/
def ProgramPoint.idle : ProgramPoint → Bool
  | .stiHlt | .halted => true
  | _ => false

/-- `Front` has returned a message that is still to be looked at. -/
def ProgramPoint.received : ProgramPoint → Bool
  | .pop | .stiSwitch => true
  | _ => false

/-- What holds whenever a step ends. -/
structure WakeUpInvariant {Event : Type} (st : KernelState Event) : Prop where
  queue : ∃ l, st.mainQueue.Holds l ∧ ∀ msg ∈ l, msg.type = kInterruptXHCI
  flag : st.interruptFlag = !st.next.masked
  counted : st.next.counted = true → st.mainQueue.count ≠ 0
  idle : st.next.idle = true → st.mainQueue.count = 0
  received : st.next.received = true → st.msg.type = kInterruptXHCI
  wakeUp : st.eventRing ≠ [] → st.interruptPending = true ∨ st.mainQueue.count ≠ 0 ∨
    st.next.draining = true

section Invariant

variable {Event : Type} {st st' : KernelState Event}

theorem wakeUpInvariant_init (h : (kernelSystem Event).init st) : WakeUpInvariant st := by
  obtain ⟨hring, hflag, hnext, data, hqueue⟩ := h
  refine ⟨⟨[], ?_, fun _ hmsg => absurd hmsg List.not_mem_nil⟩, ?_, ?_, ?_, ?_, ?_⟩
  · rw [hqueue]
    exact ArrayQueue.holds_new data
  · rw [hflag, hnext]
    rfl
  · rw [hnext]
    exact fun h => absurd h Bool.false_ne_true
  · rw [hnext]
    exact fun h => absurd h Bool.false_ne_true
  · rw [hnext]
    exact fun h => absurd h Bool.false_ne_true
  · exact fun hne => absurd hring hne

/-- Posting an event makes an interrupt pending. -/
theorem wakeUpInvariant_post (h : WakeUpInvariant st) (event : Event) :
    WakeUpInvariant (st.postStep event) :=
  ⟨h.queue, h.flag, h.counted, h.idle, h.received, fun _ => Or.inl rfl⟩

/-- The handler leaves a message in the queue: its own, or those that fill it. -/
theorem push_interrupt {q : ArrayQueue Message kMainQueueSize} {l : List Message}
    (hholds : q.Holds l) (hl : ∀ msg ∈ l, msg.type = kInterruptXHCI) :
    ∃ err q' l', q.push ⟨kInterruptXHCI⟩ = some (err, q') ∧ q'.Holds l' ∧ l' ≠ [] ∧
      ∀ msg ∈ l', msg.type = kInterruptXHCI := by
  by_cases hfull : l.length = kMainQueueSize
  -- a full queue drops the new message, and is not empty without it
  · refine ⟨.kFull, q, l, ArrayQueue.push_full hholds hfull _, hholds, ?_, hl⟩
    intro hnil
    rw [hnil] at hfull
    exact absurd hfull (by decide)
  · have hle := hholds.length_le
    have hroom : l.length < kMainQueueSize := by omega
    obtain ⟨q', hcall, hholds'⟩ := ArrayQueue.push_spec hholds hroom ⟨kInterruptXHCI⟩
    refine ⟨.kSuccess, q', _, hcall, hholds', List.append_ne_nil_of_right_ne_nil _
      (List.cons_ne_nil _ _), fun msg hmsg => ?_⟩
    rcases List.mem_append.mp hmsg with hmem | hmem
    · exact hl msg hmem
    · rw [List.mem_singleton.mp hmem]

/-- Where the handler returns to: interrupts are enabled there, and it is neither between
`Count` and `Pop` nor at the `hlt`. -/
theorem ProgramPoint.after_handler (p : ProgramPoint) (h : p.masked = false) :
    (if p = .halted then ProgramPoint.cli else p).masked = false ∧
      (if p = .halted then ProgramPoint.cli else p).counted = false ∧
      (if p = .halted then ProgramPoint.cli else p).idle = false ∧
      (if p = .halted then ProgramPoint.cli else p).received = false := by
  revert h
  cases p <;> decide

theorem wakeUpInvariant_handler (h : WakeUpInvariant st) (hstep : st.handlerStep = some st') :
    WakeUpInvariant st' := by
  unfold handlerStep at hstep
  split at hstep
  · rename_i henabled
    obtain ⟨l, hholds, hl⟩ := h.queue
    obtain ⟨err, q, l', hcall, hholds', hne, hl'⟩ := push_interrupt hholds hl
    have hmasked : st.next.masked = false := by
      have hflag := h.flag
      rw [henabled.1] at hflag
      exact (Bool.not_eq_true' _).mp hflag.symm
    obtain ⟨hmask, hcounted, hidle, hreceived⟩ := ProgramPoint.after_handler st.next hmasked
    rw [hcall, Option.map_some, Option.some.injEq] at hstep
    rw [← hstep]
    -- the interrupt is no longer pending, but its message is in the queue
    refine ⟨⟨l', hholds', hl'⟩, ?_, fun hc => ?_, fun hi => ?_, fun hr => ?_, fun _ => ?_⟩
    · show st.interruptFlag = _
      rw [henabled.1, hmask]
      rfl
    · exact absurd hc (by rw [hcounted]; decide)
    · exact absurd hi (by rw [hidle]; decide)
    · exact absurd hr (by rw [hreceived]; decide)
    · right
      left
      show q.count ≠ 0
      rw [hholds'.count]
      exact fun hlen => hne (List.length_eq_zero_iff.mp hlen)
  · exact absurd hstep (by simp)

/-- A step that only moves on, and sets the interrupt flag as its new place needs it. -/
theorem WakeUpInvariant.moveTo (h : WakeUpInvariant st) (p : ProgramPoint)
    (hcounted : p.counted = true → st.mainQueue.count ≠ 0)
    (hidle : p.idle = true → st.mainQueue.count = 0)
    (hreceived : p.received = true → st.msg.type = kInterruptXHCI)
    (hdraining : st.next.draining = true → st.eventRing ≠ [] → p.draining = true) :
    WakeUpInvariant { st with interruptFlag := !p.masked, next := p } := by
  refine ⟨h.queue, rfl, hcounted, hidle, hreceived, fun hring => ?_⟩
  rcases h.wakeUp hring with hpending | hqueue | hdrain
  · exact Or.inl hpending
  · exact Or.inr (Or.inl hqueue)
  · exact Or.inr (Or.inr (hdraining hdrain hring))

/-- A step of the loop that keeps the flag is a special case. -/
theorem WakeUpInvariant.goOn (h : WakeUpInvariant st) (p : ProgramPoint)
    (hmasked : p.masked = st.next.masked)
    (hcounted : p.counted = true → st.mainQueue.count ≠ 0)
    (hidle : p.idle = true → st.mainQueue.count = 0)
    (hreceived : p.received = true → st.msg.type = kInterruptXHCI)
    (hdraining : st.next.draining = true → st.eventRing ≠ [] → p.draining = true) :
    WakeUpInvariant { st with next := p } := by
  have hmoved := h.moveTo p hcounted hidle hreceived hdraining
  rw [hmasked, ← h.flag] at hmoved
  exact hmoved

/-- The queue is not empty when `Front` and `Pop` are called. -/
theorem WakeUpInvariant.exists_cons (h : WakeUpInvariant st) (hcounted : st.next.counted = true) :
    ∃ msg l, st.mainQueue.Holds (msg :: l) ∧ msg.type = kInterruptXHCI ∧
      ∀ msg ∈ l, msg.type = kInterruptXHCI := by
  obtain ⟨l, hholds, hl⟩ := h.queue
  cases l with
  | nil => exact absurd hholds.count (h.counted hcounted)
  | cons msg l =>
    exact ⟨msg, l, hholds, hl msg List.mem_cons_self,
      fun m hm => hl m (List.mem_cons_of_mem msg hm)⟩

/-- Every step of the main loop, by program point. -/
theorem wakeUpInvariant_main (h : WakeUpInvariant st) (hstep : st.mainStep = some st') :
    WakeUpInvariant st' := by
  have hno : ∀ {b : Bool} {P : Prop}, b = false → b = true → P := by
    intro b P hfalse htrue
    exact absurd (hfalse.symm.trans htrue) (by decide)
  unfold mainStep at hstep
  cases hnext : st.next with
  | sti =>
    simp only [hnext, Option.some.injEq] at hstep
    rw [← hstep]
    exact h.moveTo .configurePorts (hno rfl) (hno rfl) (hno rfl) (by rw [hnext]; exact hno rfl)
  | configurePorts =>
    simp only [hnext, Option.some.injEq] at hstep
    rw [← hstep]
    exact h.goOn .cli (by rw [hnext]; rfl) (hno rfl) (hno rfl) (hno rfl)
      (by rw [hnext]; exact hno rfl)
  | cli =>
    simp only [hnext, Option.some.injEq] at hstep
    rw [← hstep]
    exact h.moveTo .count (hno rfl) (hno rfl) (hno rfl) (by rw [hnext]; exact hno rfl)
  | count =>
    simp only [hnext, Option.some.injEq] at hstep
    rw [← hstep]
    by_cases hzero : st.mainQueue.count = 0
    · rw [if_pos hzero]
      exact h.goOn .stiHlt (by rw [hnext]; rfl) (hno rfl) (fun _ => hzero) (hno rfl)
        (by rw [hnext]; exact hno rfl)
    · rw [if_neg hzero]
      exact h.goOn .front (by rw [hnext]; rfl) (fun _ => hzero) (hno rfl) (hno rfl)
        (by rw [hnext]; exact hno rfl)
  | stiHlt =>
    simp only [hnext, Option.some.injEq] at hstep
    rw [← hstep]
    exact h.moveTo .halted (hno rfl) (fun _ => h.idle (by rw [hnext]; rfl)) (hno rfl)
      (by rw [hnext]; exact hno rfl)
  | halted =>
    simp only [hnext] at hstep
    exact absurd hstep (by simp)
  | front =>
    obtain ⟨msg, l, hholds, hmsg, hl⟩ := h.exists_cons (by rw [hnext]; rfl)
    simp only [hnext, ArrayQueue.front_spec hholds, Option.map_some, Option.some.injEq] at hstep
    rw [← hstep]
    have hreceive : WakeUpInvariant { st with msg := msg } :=
      ⟨h.queue, h.flag, h.counted, h.idle, fun _ => hmsg, h.wakeUp⟩
    exact hreceive.goOn .pop (by rw [hnext]; rfl) (fun _ => h.counted (by rw [hnext]; rfl))
      (hno rfl) (fun _ => hmsg) (by rw [hnext]; exact hno rfl)
  | pop =>
    obtain ⟨msg, l, hholds, _, hl⟩ := h.exists_cons (by rw [hnext]; rfl)
    obtain ⟨q, hcall, hholds'⟩ := ArrayQueue.pop_spec hholds
    simp only [hnext, hcall, Option.map_some, Option.some.injEq] at hstep
    rw [← hstep]
    have hflag := h.flag
    rw [hnext] at hflag
    -- the queue may be empty now; from here to `HasFront` the loop drains the ring instead
    exact ⟨⟨l, hholds', hl⟩, hflag, hno rfl, hno rfl, fun _ => h.received (by rw [hnext]; rfl),
      fun _ => Or.inr (Or.inr rfl)⟩
  | stiSwitch =>
    -- only interrupt messages are ever pushed, so the `switch` takes its first branch
    have htype := h.received (by rw [hnext]; rfl)
    simp only [hnext, htype, if_true, Option.some.injEq] at hstep
    rw [← hstep]
    exact h.moveTo .hasFront (hno rfl) (hno rfl) (hno rfl) fun _ _ => rfl
  | hasFront =>
    simp only [hnext, Option.some.injEq] at hstep
    rw [← hstep]
    by_cases hring : st.eventRing = []
    -- the loop stops draining only when no event is left to need it
    · rw [if_pos hring]
      exact h.goOn .cli (by rw [hnext]; rfl) (hno rfl) (hno rfl) (hno rfl)
        fun _ hne => absurd hring hne
    · rw [if_neg hring]
      exact h.goOn .processEvent (by rw [hnext]; rfl) (hno rfl) (hno rfl) (hno rfl)
        fun _ _ => rfl
  | processEvent =>
    simp only [hnext, Option.some.injEq] at hstep
    rw [← hstep]
    have hflag := h.flag
    rw [hnext] at hflag
    exact ⟨h.queue, hflag, hno rfl, hno rfl, hno rfl, fun _ => Or.inr (Or.inr rfl)⟩

theorem wakeUpInvariant_reachable (h : (kernelSystem Event).Reachable st) :
    WakeUpInvariant st := by
  apply h.invariant (P := WakeUpInvariant)
  · exact fun _ hinit => wakeUpInvariant_init hinit
  · intro st st' _ ih hstep
    cases hstep with
    | main hmain => exact wakeUpInvariant_main ih hmain
    | handler hhandler => exact wakeUpInvariant_handler ih hhandler
    | post event => exact wakeUpInvariant_post ih event

/-- With interrupts disabled the handler does not run. -/
theorem handlerStep_eq_none (h : WakeUpInvariant st) (hmasked : st.next.masked = true) :
    st.handlerStep = none := by
  have hflag := h.flag
  rw [hmasked] at hflag
  unfold handlerStep
  rw [if_neg]
  intro henabled
  rw [hflag] at henabled
  exact absurd henabled.1 (by decide)

/-- A processor that is halted with an event in the ring is about to be woken up. -/
theorem handlerStep_of_halted (h : WakeUpInvariant st) (hhalted : st.next = .halted)
    (hring : st.eventRing ≠ []) : ∃ st', st.handlerStep = some st' := by
  have hflag := h.flag
  have hidle := h.idle (by rw [hhalted]; rfl)
  rw [hhalted] at hflag
  have hpending : st.interruptPending = true := by
    rcases h.wakeUp hring with hpending | hqueue | hdrain
    · exact hpending
    · exact absurd hidle hqueue
    · rw [hhalted] at hdrain
      exact absurd hdrain (by decide)
  obtain ⟨l, hholds, hl⟩ := h.queue
  obtain ⟨err, q, l', hcall, _⟩ := push_interrupt hholds hl
  unfold handlerStep
  rw [if_pos ⟨hflag, hpending⟩, hcall]
  exact ⟨_, rfl⟩

/-- The loop itself never gets stuck. -/
theorem mainStep_defined (h : WakeUpInvariant st) (hnext : st.next ≠ .halted) :
    ∃ st', st.mainStep = some st' := by
  unfold mainStep
  cases hp : st.next with
  | halted => exact absurd hp hnext
  | front =>
    obtain ⟨msg, l, hholds, _⟩ := h.exists_cons (by rw [hp]; rfl)
    rw [ArrayQueue.front_spec hholds]
    exact ⟨_, rfl⟩
  | pop =>
    obtain ⟨msg, l, hholds, _⟩ := h.exists_cons (by rw [hp]; rfl)
    obtain ⟨q, hcall, _⟩ := ArrayQueue.pop_spec hholds
    rw [hcall]
    exact ⟨_, rfl⟩
  | _ => exact ⟨_, rfl⟩

/-- In every state of every run: an event in the ring means a pending interrupt, a message
in the queue or a loop that is still draining the ring; the loop is not about to halt, nor
halted for good, while an event waits; and the handler does not run between `Count`, `Front`
and `Pop`. -/
theorem kernelSystem_no_lost_wakeup (h : (kernelSystem Event).Reachable st) :
    (st.eventRing ≠ [] → st.interruptPending = true ∨ st.mainQueue.count ≠ 0 ∨
      st.next.draining = true) ∧
    ¬ (st.next = .stiHlt ∧ st.eventRing ≠ [] ∧ st.mainQueue.count = 0 ∧
      st.interruptPending = false) ∧
    (st.next = .halted → st.eventRing ≠ [] → ∃ st', st.handlerStep = some st') ∧
    (st.next = .count ∨ st.next = .front ∨ st.next = .pop → st.handlerStep = none) ∧
    (st.next ≠ .halted → ∃ st', st.mainStep = some st') := by
  have hinv := wakeUpInvariant_reachable h
  refine ⟨hinv.wakeUp, ?_, handlerStep_of_halted hinv, ?_, mainStep_defined hinv⟩
  -- nothing is left that could wake the loop, which is what the invariant rules out
  · intro hlost
    obtain ⟨hnext, hring, hcount, hpending⟩ := hlost
    rcases hinv.wakeUp hring with hp | hq | hd
    · exact absurd (hpending.symm.trans hp) (by decide)
    · exact hq hcount
    · rw [hnext] at hd
      exact absurd hd (by decide)
  -- interrupts are off from `cli` on
  · intro hnext
    apply handlerStep_eq_none hinv
    rcases hnext with hcount | hfront | hpop
    · rw [hcount]
      rfl
    · rw [hfront]
      rfl
    · rw [hpop]
      rfl

end Invariant

/-- A run in which the controller posts two events before interrupts are enabled. -/
theorem kernelSystem_no_lost_wakeup_two_posts :
    ∃ st, (kernelSystem ℕ).Reachable st ∧ st.eventRing = [1, 2] ∧
      (st.eventRing ≠ [] → st.interruptPending = true ∨ st.mainQueue.count ≠ 0 ∨
        st.next.draining = true) ∧
      ¬ (st.next = .stiHlt ∧ st.eventRing ≠ [] ∧ st.mainQueue.count = 0 ∧
        st.interruptPending = false) ∧
      (st.next = .halted → st.eventRing ≠ [] → ∃ st', st.handlerStep = some st') ∧
      (st.next = .count ∨ st.next = .front ∨ st.next = .pop → st.handlerStep = none) ∧
      (st.next ≠ .halted → ∃ st', st.mainStep = some st') := by
  have hstart : (kernelSystem ℕ).Reachable
      ⟨[], false, false, .new fun _ => ⟨7⟩, ⟨7⟩, .sti⟩ := .start ⟨rfl, rfl, rfl, _, rfl⟩
  have hposted := (hstart.next (.post 1)).next (.post 2)
  have hran := (hposted.next (.main rfl)).next (.main rfl)
  exact ⟨_, hran, rfl, kernelSystem_no_lost_wakeup hran⟩

end TommyOS
