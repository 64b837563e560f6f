import Mathlib.Data.List.InsertIdx
import Mathlib.Data.List.Nodup

/-!
# Stacks whose elements are moved

One element of a stack is put at some height, or on top where the stack is not that high. The
others close the gap and make room.
-/

namespace Restack

variable {α : Type*} [BEq α] {stack : List α} {a : α} {height : ℕ}

/-- The stack with an element at a height. -/
def raise (stack : List α) (a : α) (height : ℕ) : List α :=
  (stack.erase a).insertIdx (min height (stack.erase a).length) a

theorem length_raise : (raise stack a height).length = (stack.erase a).length + 1 :=
  List.length_insertIdx_of_le_length (Nat.min_le_right _ _) a

theorem perm_raise : (raise stack a height).Perm (a :: stack.erase a) :=
  List.perm_insertIdx a _ (Nat.min_le_right _ _)

theorem mem_raise {b : α} : b ∈ raise stack a height ↔ b = a ∨ b ∈ stack.erase a := by
  rw [perm_raise.mem_iff, List.mem_cons]

/-- It is at that height, or on top. -/
theorem getElem?_raise :
    (raise stack a height)[min height ((raise stack a height).length - 1)]? = some a := by
  rw [length_raise, Nat.add_sub_cancel]
  unfold raise
  rw [List.getElem?_insertIdx_self, if_pos (Nat.min_le_right _ _)]

variable [LawfulBEq α]

theorem nodup_raise (hstack : stack.Nodup) : (raise stack a height).Nodup := by
  rw [perm_raise.nodup_iff, List.nodup_cons]
  exact ⟨hstack.not_mem_erase, hstack.erase a⟩

theorem erase_insertIdx_self {l : List α} (ha : a ∉ l) {i : ℕ} (hi : i ≤ l.length) :
    (l.insertIdx i a).erase a = l := by
  induction l generalizing i with
  | nil =>
    obtain rfl := Nat.le_zero.mp hi
    rw [List.insertIdx_zero, List.erase_cons_head]
  | cons b l ih =>
    cases i with
    | zero => rw [List.insertIdx_zero, List.erase_cons_head]
    | succ i =>
      have hb : b ≠ a := fun heq => ha (heq ▸ List.mem_cons_self)
      have htail : a ∉ l := fun hmem => ha (List.mem_cons_of_mem b hmem)
      rw [List.insertIdx_succ_cons, List.erase_cons_tail (by simpa using hb),
        ih htail (Nat.le_of_succ_le_succ hi)]

/-- The others are as they were. -/
theorem erase_raise (hstack : stack.Nodup) : (raise stack a height).erase a = stack.erase a :=
  erase_insertIdx_self hstack.not_mem_erase (Nat.min_le_right _ _)

end Restack
