import TommyOS.Queue.Queue
import Mathlib.Algebra.Order.Group.Nat

/-!
# `ArrayQueue` is a queue

The elements of an `ArrayQueue` are a list, from the read position on and around the end of
the buffer. Each operation is the one of a bounded list.
-/

namespace TommyOS
namespace ArrayQueue

variable {T : Type*} {capacity : ℕ} {q : ArrayQueue T capacity} {l : List T} {value : T}

/-- The position of element `i` behind a position of the buffer. -/
theorem add_mod_of_lt {r i c : ℕ} (hr : r < c) (hi : i ≤ c) :
    (r + i) % c = if r + i < c then r + i else r + i - c := by
  by_cases hlt : r + i < c
  · rw [if_pos hlt, Nat.mod_eq_of_lt hlt]
  · rw [if_neg hlt, Nat.mod_eq_sub_mod (Nat.le_of_not_lt hlt), Nat.mod_eq_of_lt (by omega)]

/-- Distinct elements of a full turn have distinct positions. -/
theorem add_mod_inj {r i j c : ℕ} (hr : r < c) (hi : i < c) (hj : j < c)
    (h : (r + i) % c = (r + j) % c) : i = j := by
  rw [add_mod_of_lt hr (Nat.le_of_lt hi), add_mod_of_lt hr (Nat.le_of_lt hj)] at h
  -- whether either position has gone around the end
  split at h
  · split at h
    · omega
    · omega
  · split at h
    · omega
    · omega

/-- The queue holds the elements of a list, the first one at the read position. -/
structure Holds (q : ArrayQueue T capacity) (l : List T) : Prop where
  count : q.count = l.length
  length_le : l.length ≤ capacity
  readPos : 0 < capacity → q.readPos < capacity
  writePos : 0 < capacity → q.writePos = (q.readPos + l.length) % capacity
  data : ∀ (i : Fin capacity) (j : ℕ), j < l.length → i.val = (q.readPos + j) % capacity →
    l[j]? = some (q.data i)

theorem holds_new (buf : Fin capacity → T) : (new buf).Holds [] := by
  refine ⟨rfl, Nat.zero_le _, fun h => h, fun _ => ?_, fun i j hj => ?_⟩
  · exact (Nat.zero_mod capacity).symm
  · exact absurd hj (Nat.not_lt_zero j)

/-! ## `Push` -/

theorem push_full (h : q.Holds l) (hfull : l.length = capacity) (value : T) :
    q.push value = some (.kFull, q) := by
  unfold push
  rw [if_pos (h.count.trans hfull)]

/-- `Push` into a queue that is not full appends the element. -/
theorem push_spec (h : q.Holds l) (hroom : l.length < capacity) (value : T) :
    ∃ q', q.push value = some (.kSuccess, q') ∧ q'.Holds (l ++ [value]) := by
  have hpos : 0 < capacity := by omega
  have hread := h.readPos hpos
  have hwrite := h.writePos hpos
  have hcount := h.count
  have hlt : q.writePos < capacity := by
    rw [hwrite]
    exact Nat.mod_lt _ hpos
  have hlength : (l ++ [value]).length = l.length + 1 := by
    rw [List.length_append, List.length_singleton]
  let q' : ArrayQueue T capacity := ⟨Function.update q.data ⟨q.writePos, hlt⟩ value, q.readPos,
    (q.writePos + 1) % capacity, q.count + 1⟩
  have hcall : q.push value = some (.kSuccess, q') := by
    unfold push
    rw [if_neg (by omega), dif_pos hlt]
  refine ⟨q', hcall, ?_, by omega, fun _ => hread, fun _ => ?_, fun i j hj hi => ?_⟩
  · show q.count + 1 = _
    rw [hlength, hcount]
  · show (q.writePos + 1) % capacity = (q.readPos + (l ++ [value]).length) % capacity
    rw [hwrite, hlength, Nat.mod_add_mod, Nat.add_assoc]
  · have hi' : i.val = (q.readPos + j) % capacity := hi
    show _ = some (Function.update q.data ⟨q.writePos, hlt⟩ value i)
    by_cases hlast : j = l.length
    · have heq : i = ⟨q.writePos, hlt⟩ := by
        apply Fin.ext
        show i.val = q.writePos
        rw [hi', hlast, hwrite]
      rw [heq, Function.update_self, hlast, List.getElem?_concat_length]
    · -- an older element: its position is not the one written
      have hne : i ≠ ⟨q.writePos, hlt⟩ := by
        intro heq
        have hval : i.val = q.writePos := congrArg Fin.val heq
        rw [hi', hwrite] at hval
        exact hlast (add_mod_inj hread (by omega) hroom hval)
      rw [List.getElem?_append_left (by omega), Function.update_of_ne hne]
      exact h.data i j (by omega) hi'

/-! ## `Pop` and `Front` -/

theorem pop_empty (h : q.Holds []) : q.pop = some (.kEmpty, q) := by
  have hcount : q.count = 0 := h.count
  unfold pop
  rw [if_pos hcount]

/-- `Pop` drops the first element. -/
theorem pop_spec (h : q.Holds (value :: l)) :
    ∃ q', q.pop = some (.kSuccess, q') ∧ q'.Holds l := by
  have hcount := h.count
  have hle := h.length_le
  rw [List.length_cons] at hcount hle
  have hpos : 0 < capacity := by omega
  have hwrite := h.writePos hpos
  have hshift : ∀ j, ((q.readPos + 1) % capacity + j) % capacity =
      (q.readPos + (j + 1)) % capacity := by
    intro j
    rw [Nat.mod_add_mod, Nat.add_assoc, Nat.add_comm 1 j]
  let q' : ArrayQueue T capacity :=
    ⟨q.data, (q.readPos + 1) % capacity, q.writePos, q.count - 1⟩
  have hcall : q.pop = some (.kSuccess, q') := by
    unfold pop
    rw [if_neg (by omega), if_neg (by omega)]
  refine ⟨q', hcall, ?_, by omega, fun _ => Nat.mod_lt _ hpos, fun _ => ?_, fun i j hj hi => ?_⟩
  · show q.count - 1 = l.length
    omega
  · show q.writePos = ((q.readPos + 1) % capacity + l.length) % capacity
    rw [hshift, hwrite, List.length_cons]
  · have hi' : i.val = ((q.readPos + 1) % capacity + j) % capacity := hi
    rw [hshift] at hi'
    rw [← h.data i (j + 1) (by rw [List.length_cons]; omega) hi', List.getElem?_cons_succ]

/-- `Front` is the first element. -/
theorem front_spec (h : q.Holds (value :: l)) : q.front = some value := by
  have hle := h.length_le
  rw [List.length_cons] at hle
  have hread := h.readPos (by omega)
  have hfirst := h.data ⟨q.readPos, hread⟩ 0 (by rw [List.length_cons]; omega)
    (by rw [Nat.add_zero, Nat.mod_eq_of_lt hread])
  unfold front
  rw [dif_pos hread, ← hfirst, List.getElem?_cons_zero]

end ArrayQueue
end TommyOS
