import TommyOS.Error
import Mathlib.Data.Nat.Notation
import Mathlib.Logic.Function.Basic

/-!
# `ArrayQueue`

The queue over a buffer of `capacity` elements. The capacity is `const`, so it is a
parameter of the type. An access outside the buffer and a division by a capacity of zero
are `none`.
-/

namespace TommyOS

structure ArrayQueue (T : Type*) (capacity : ℕ) where
  data : Fin capacity → T
  readPos : ℕ
  writePos : ℕ
  count : ℕ

namespace ArrayQueue

variable {T : Type*} {capacity : ℕ}

/-- The constructor, on a buffer with arbitrary contents. -/
def new (buf : Fin capacity → T) : ArrayQueue T capacity where
  data := buf
  readPos := 0
  writePos := 0
  count := 0

/-- `Push`. -/
def push (q : ArrayQueue T capacity) (value : T) : Option (Error × ArrayQueue T capacity) :=
  if q.count = capacity then
    some (.kFull, q)
  else if h : q.writePos < capacity then
    some (.kSuccess,
      { q with
        data := Function.update q.data ⟨q.writePos, h⟩ value
        writePos := (q.writePos + 1) % capacity
        count := q.count + 1 })
  else
    none

/-- `Pop`. -/
def pop (q : ArrayQueue T capacity) : Option (Error × ArrayQueue T capacity) :=
  if q.count = 0 then
    some (.kEmpty, q)
  else if capacity = 0 then
    none
  else
    some (.kSuccess, { q with readPos := (q.readPos + 1) % capacity, count := q.count - 1 })

/-- `Front`. -/
def front (q : ArrayQueue T capacity) : Option T :=
  if h : q.readPos < capacity then some (q.data ⟨q.readPos, h⟩) else none

end ArrayQueue

end TommyOS
