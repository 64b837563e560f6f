import TommyOS.Queue.QueueTheorems

/-!
# Runs of `Push` and `Pop`

A fresh `ArrayQueue` answers any sequence of calls as a bounded first-in first-out queue
does. What a run does is read off its outcomes: the error of each call, and the element at
the front when the call is made.
-/

namespace TommyOS

/-- A call that changes the queue. -/
inductive QueueCall (T : Type*) where
  | push (value : T)
  | pop

/-- What is seen of a call: its result, and what `Front` returned before it. -/
structure QueueOutcome (T : Type*) where
  call : QueueCall T
  error : Error
  front : Option T

namespace ArrayQueue

variable {T : Type*} {capacity : ℕ}

def apply (q : ArrayQueue T capacity) : QueueCall T → Option (Error × ArrayQueue T capacity)
  | .push value => q.push value
  | .pop => q.pop

/-- A sequence of calls, with the outcome of each. -/
def runCalls (q : ArrayQueue T capacity) :
    List (QueueCall T) → Option (List (QueueOutcome T) × ArrayQueue T capacity)
  | [] => some ([], q)
  | call :: calls => do
    let (error, q') ← q.apply call
    let (outcomes, last) ← q'.runCalls calls
    some (⟨call, error, q.front⟩ :: outcomes, last)

end ArrayQueue

/-! ## What the queue is for -/

/-- A first-in first-out queue of at most `capacity` elements. -/
structure BoundedFifo (T : Type*) (capacity : ℕ) where
  elements : List T
  length_le : elements.length ≤ capacity

namespace BoundedFifo

variable {T : Type*} {capacity : ℕ}

def empty (T : Type*) (capacity : ℕ) : BoundedFifo T capacity := ⟨[], Nat.zero_le _⟩

/-- Adds at the end while there is room. -/
def push (f : BoundedFifo T capacity) (value : T) : Error × BoundedFifo T capacity :=
  if h : f.elements.length < capacity then
    (.kSuccess, ⟨f.elements ++ [value], by
      rw [List.length_append, List.length_singleton]
      exact h⟩)
  else
    (.kFull, f)

/-- Drops the first element, if there is one. -/
def pop (f : BoundedFifo T capacity) : Error × BoundedFifo T capacity :=
  match h : f.elements with
  | [] => (.kEmpty, f)
  | _ :: l => (.kSuccess, ⟨l, by
      have hle := f.length_le
      rw [h, List.length_cons] at hle
      omega⟩)

def apply (f : BoundedFifo T capacity) : QueueCall T → Error × BoundedFifo T capacity
  | .push value => f.push value
  | .pop => f.pop

/-- The errors of a sequence of calls, and the queue they leave. -/
def run (f : BoundedFifo T capacity) : List (QueueCall T) → List Error × BoundedFifo T capacity
  | [] => ([], f)
  | call :: calls =>
    let (error, f') := f.apply call
    let (errors, last) := f'.run calls
    (error :: errors, last)

end BoundedFifo

/-! ## Histories -/

/-- The elements that successful `Push` calls have put in. -/
def accepted {T : Type*} : List (QueueOutcome T) → List T
  | [] => []
  | ⟨.push value, .kSuccess, _⟩ :: outcomes => value :: accepted outcomes
  | _ :: outcomes => accepted outcomes

/-- The elements at the front that successful `Pop` calls have taken out. -/
def removed {T : Type*} : List (QueueOutcome T) → List T
  | [] => []
  | ⟨.pop, .kSuccess, some value⟩ :: outcomes => value :: removed outcomes
  | _ :: outcomes => removed outcomes

namespace ArrayQueue

variable {T : Type*} {capacity : ℕ} {q : ArrayQueue T capacity} {f : BoundedFifo T capacity}

/-- A call on a queue that holds the elements of `f` has the result it has on `f`. -/
theorem apply_spec (h : q.Holds f.elements) (call : QueueCall T) :
    ∃ q', q.apply call = some ((f.apply call).1, q') ∧
      q'.Holds (f.apply call).2.elements ∧
      ((f.apply call).1 ≠ .kSuccess → q' = q) := by
  cases call with
  | push value =>
    show ∃ q', q.push value = some ((f.push value).1, q') ∧
      q'.Holds (f.push value).2.elements ∧ ((f.push value).1 ≠ .kSuccess → q' = q)
    unfold BoundedFifo.push
    -- a full queue turns the value down, on both sides
    by_cases hroom : f.elements.length < capacity
    · obtain ⟨q', hcall, hq'⟩ := push_spec h hroom value
      rw [dif_pos hroom]
      exact ⟨q', hcall, hq', fun hne => absurd rfl hne⟩
    · have hfull : f.elements.length = capacity := by
        have := f.length_le
        omega
      rw [dif_neg hroom]
      exact ⟨q, push_full h hfull value, h, fun _ => rfl⟩
  | pop =>
    show ∃ q', q.pop = some ((f.pop).1, q') ∧ q'.Holds (f.pop).2.elements ∧
      ((f.pop).1 ≠ .kSuccess → q' = q)
    unfold BoundedFifo.pop
    -- an empty queue has nothing to remove, on both sides
    split
    · next hnil =>
      have hempty : q.Holds [] := by
        rw [← hnil]
        exact h
      exact ⟨q, pop_empty hempty, h, fun _ => rfl⟩
    · next first l hcons =>
      rw [hcons] at h
      obtain ⟨q', hcall, hq'⟩ := pop_spec h
      exact ⟨q', hcall, hq', fun hne => absurd rfl hne⟩

/-- What a call adds to the histories balances what it does to the elements. -/
theorem accepted_apply (h : q.Holds f.elements) (call : QueueCall T)
    (outcomes : List (QueueOutcome T)) :
    f.elements ++ accepted (⟨call, (f.apply call).1, q.front⟩ :: outcomes) =
      removed [⟨call, (f.apply call).1, q.front⟩] ++
        ((f.apply call).2.elements ++ accepted outcomes) := by
  cases call with
  | push value =>
    show f.elements ++ accepted (⟨.push value, (f.push value).1, q.front⟩ :: outcomes) =
      (f.push value).2.elements ++ accepted outcomes
    unfold BoundedFifo.push
    by_cases hroom : f.elements.length < capacity
    · rw [dif_pos hroom]
      show f.elements ++ value :: accepted outcomes = f.elements ++ [value] ++ accepted outcomes
      rw [List.append_assoc, List.singleton_append]
    · rw [dif_neg hroom]
      rfl
  | pop =>
    show f.elements ++ accepted (⟨.pop, (f.pop).1, q.front⟩ :: outcomes) =
      removed [⟨.pop, (f.pop).1, q.front⟩] ++ ((f.pop).2.elements ++ accepted outcomes)
    unfold BoundedFifo.pop
    -- the removed element is the one `Front` showed
    split
    · next hnil => rfl
    · next first l hcons =>
      rw [hcons] at h
      rw [front_spec h]
      show f.elements ++ accepted outcomes = first :: (l ++ accepted outcomes)
      rw [hcons, List.cons_append]

theorem removed_cons (outcome : QueueOutcome T) (outcomes : List (QueueOutcome T)) :
    removed (outcome :: outcomes) = removed [outcome] ++ removed outcomes := by
  obtain ⟨call, error, front⟩ := outcome
  cases call with
  | push value => rfl
  | pop =>
    cases front with
    | none => cases error <;> rfl
    | some value => cases error <;> rfl

/-- A run from a queue that holds the elements of `f`. -/
theorem runCalls_spec (calls : List (QueueCall T)) :
    ∀ {q : ArrayQueue T capacity} {f : BoundedFifo T capacity}, q.Holds f.elements →
      ∃ outcomes q', q.runCalls calls = some (outcomes, q') ∧
        outcomes.map (·.error) = (f.run calls).1 ∧
        q'.Holds (f.run calls).2.elements ∧
        f.elements ++ accepted outcomes = removed outcomes ++ (f.run calls).2.elements := by
  induction calls with
  | nil =>
    intro q f h
    exact ⟨[], q, rfl, rfl, h, List.append_nil _⟩
  | cons call calls ih =>
    intro q f h
    obtain ⟨q₁, hcall, hq₁, -⟩ := apply_spec h call
    obtain ⟨outcomes, q', hrun, herrors, hq', hbalance⟩ := ih hq₁
    refine ⟨⟨call, (f.apply call).1, q.front⟩ :: outcomes, q', ?_, ?_, hq', ?_⟩
    · unfold runCalls
      rw [hcall]
      show (q₁.runCalls calls).bind _ = _
      rw [hrun]
      rfl
    · rw [List.map_cons, herrors]
      rfl
    · rw [accepted_apply h call outcomes, hbalance, removed_cons _ outcomes, List.append_assoc]
      rfl

/-- **An `ArrayQueue` refines a bounded FIFO**: after any sequence of calls on a fresh queue,
with whatever its buffer contains, every access was inside the buffer, the errors are those
of the FIFO, `Count` and `Front` agree with it, each further call does what it does there,
and the elements put in are those taken out followed by those still held. -/
theorem arrayQueue_refines_boundedFifo (buf : Fin capacity → T) (calls : List (QueueCall T)) :
    ∃ outcomes q l, (new buf).runCalls calls = some (outcomes, q) ∧
      outcomes.map (·.error) = ((BoundedFifo.empty T capacity).run calls).1 ∧
      ((BoundedFifo.empty T capacity).run calls).2.elements = l ∧
      q.count = l.length ∧
      (∀ value ∈ l.head?, q.front = some value) ∧
      (∀ value, l.length < capacity →
        ∃ q', q.push value = some (.kSuccess, q') ∧ q'.Holds (l ++ [value])) ∧
      (∀ value, l.length = capacity → q.push value = some (.kFull, q)) ∧
      (l = [] → q.pop = some (.kEmpty, q)) ∧
      (l ≠ [] → ∃ q', q.pop = some (.kSuccess, q') ∧ q'.Holds l.tail) ∧
      accepted outcomes = removed outcomes ++ l ∧
      l.length ≤ capacity ∧
      (0 < capacity → q.readPos < capacity ∧ q.writePos < capacity) := by
  have hfresh : (new buf).Holds (BoundedFifo.empty T capacity).elements := holds_new buf
  obtain ⟨outcomes, q, hrun, herrors, hq, hbalance⟩ := runCalls_spec calls hfresh
  -- everything that follows is about the queue behind the calls and what it holds
  generalize hl : ((BoundedFifo.empty T capacity).run calls).2.elements = l at hq hbalance
  have hfront : ∀ value ∈ l.head?, q.front = some value := by
    intro value hvalue
    obtain ⟨tail, rfl⟩ := List.head?_eq_some_iff.mp hvalue
    exact front_spec hq
  have hempty : l = [] → q.pop = some (.kEmpty, q) := by
    rintro rfl
    exact pop_empty hq
  have hpop : l ≠ [] → ∃ q', q.pop = some (.kSuccess, q') ∧ q'.Holds l.tail := by
    intro hne
    obtain ⟨first, tail, rfl⟩ := List.exists_cons_of_ne_nil hne
    exact pop_spec hq
  have hindex : 0 < capacity → q.readPos < capacity ∧ q.writePos < capacity := by
    intro hpos
    rw [hq.writePos hpos]
    exact ⟨hq.readPos hpos, Nat.mod_lt _ hpos⟩
  exact ⟨outcomes, q, l, hrun, herrors, rfl, hq.count, hfront,
    fun value hroom => push_spec hq hroom value, fun value hfull => push_full hq hfull value,
    hempty, hpop, hbalance, hq.length_le, hindex⟩

/-- A lap and a half around a buffer of two elements. -/
example : ((new (fun _ : Fin 2 => 0)).runCalls
    [.push 1, .push 2, .push 3, .pop, .push 4, .pop, .pop, .pop]).map
      (fun run => (run.1.map (·.error), removed run.1)) =
    some ([.kSuccess, .kSuccess, .kFull, .kSuccess, .kSuccess, .kSuccess, .kSuccess, .kEmpty],
      [1, 2, 4]) := rfl

end ArrayQueue
end TommyOS
