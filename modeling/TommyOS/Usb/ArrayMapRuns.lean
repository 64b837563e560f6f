import Mathlib.Data.List.Induction
import Mathlib.Data.List.Nodup
import TommyOS.Usb.ArrayMap

/-!
# `ArrayMap` as a finite map

After some calls of `Put` and `Delete` a map holds for each key what the last call for it says.
`ArrayMap` does so unless a key is put again behind its old slot, or deleted with a second slot
left.
-/

namespace TommyOS.Usb

inductive MapCall (K V : Type*) where
  | put (key : K) (value : V)
  | delete (key : K)

namespace MapCall

variable {K V : Type*} [DecidableEq K]

def key : MapCall K V → K
  | put key _ => key
  | delete key => key

/-- What a key has after a call for it. -/
def outcome : MapCall K V → Option V
  | put _ value => some value
  | delete _ => none

/-- What the last call for a key says: the value of a `Put`, or nothing after a `Delete`. -/
def answer (calls : List (MapCall K V)) (k : K) : Option V :=
  (calls.reverse.find? fun call => call.key = k).bind outcome

theorem answer_append (calls : List (MapCall K V)) (call : MapCall K V) (k : K) :
    answer (calls ++ [call]) k = if call.key = k then call.outcome else answer calls k := by
  unfold answer
  rw [List.reverse_append, List.reverse_singleton, List.singleton_append, List.find?_cons]
  by_cases hk : call.key = k
  · rw [if_pos hk, decide_eq_true hk]
    rfl
  · rw [if_neg hk, decide_eq_false hk]

end MapCall

namespace ArrayMap

open MapCall

variable {K V : Type*} [DecidableEq K] {m : ArrayMap K V} {key k : K} {value : V}
  {table : List (Option (K × V))} {N : ℕ} {calls : List (MapCall K V)}

def step (m : ArrayMap K V) : MapCall K V → ArrayMap K V
  | .put key value => m.put key value
  | .delete key => m.delete key

/-- The array of `N` slots after some calls. -/
def after (N : ℕ) (calls : List (MapCall K V)) : ArrayMap K V := calls.foldl step (empty N)

theorem after_append (call : MapCall K V) : after N (calls ++ [call]) = (after N calls).step call :=
  List.foldl_concat step (empty N) call calls

/-! ## Slots of a key -/

/-- There is an empty slot, and none of the key in front of it. -/
def roomBefore (key : K) : List (Option (K × V)) → Bool
  | [] => false
  | none :: _ => true
  | some (k, _) :: rest => k ≠ key && roomBefore key rest

/-- The number of slots that hold a key. -/
def slotsOf (key : K) (table : List (Option (K × V))) : ℕ :=
  table.countP fun slot => slot.map Prod.fst = some key

theorem getFrom_putFrom_of_ne (hne : k ≠ key) :
    getFrom k (putFrom key value table) = getFrom k table := by
  induction table with
  | nil => rfl
  | cons slot rest ih =>
    rcases slot with _ | ⟨k', v⟩
    · rw [putFrom, getFrom, getFrom, if_neg hne.symm]
    · rw [putFrom, getFrom, getFrom, ih]

theorem getFrom_putFrom_self :
    getFrom key (putFrom key value table) =
      if roomBefore key table then some value else getFrom key table := by
  induction table with
  | nil => rfl
  | cons slot rest ih =>
    rcases slot with _ | ⟨k', v⟩
    · exact (if_pos rfl).trans (if_pos rfl).symm
    · rw [putFrom, getFrom, getFrom, roomBefore]
      by_cases hk : k' = key
      · simp [hk]
      · simp [hk, ih]

theorem getFrom_deleteFrom_of_ne (hne : k ≠ key) :
    getFrom k (deleteFrom key table) = getFrom k table := by
  induction table with
  | nil => rfl
  | cons slot rest ih =>
    rcases slot with _ | ⟨k', v⟩
    · rw [deleteFrom, getFrom, getFrom, ih]
    · rw [deleteFrom, getFrom]
      split
      · next hk => rw [getFrom, if_neg (hk ▸ hne.symm)]
      · rw [getFrom, ih]

theorem getFrom_eq_none_iff_slotsOf : getFrom key table = none ↔ slotsOf key table = 0 := by
  induction table with
  | nil => exact iff_of_true rfl rfl
  | cons slot rest ih =>
    unfold slotsOf at ih ⊢
    rcases slot with _ | ⟨k', v⟩
    · rw [getFrom, ih, List.countP_cons_of_neg (by simp)]
    · rw [getFrom]
      by_cases hk : k' = key
      · rw [if_pos hk, List.countP_cons_of_pos (by simp [hk])]
        exact iff_of_false (Option.some_ne_none v) (Nat.succ_ne_zero _)
      · rw [if_neg hk, ih, List.countP_cons_of_neg (by simp [hk])]

theorem slotsOf_deleteFrom : slotsOf key (deleteFrom key table) = slotsOf key table - 1 := by
  induction table with
  | nil => rfl
  | cons slot rest ih =>
    unfold slotsOf at ih ⊢
    rcases slot with _ | ⟨k', v⟩
    · rw [deleteFrom, List.countP_cons_of_neg (by simp), List.countP_cons_of_neg (by simp), ih]
    · rw [deleteFrom]
      by_cases hk : k' = key
      · rw [if_pos hk, List.countP_cons_of_neg (by simp), List.countP_cons_of_pos (by simp [hk]),
          Nat.add_sub_cancel]
      · rw [if_neg hk, List.countP_cons_of_neg (by simp [hk]),
          List.countP_cons_of_neg (by simp [hk]), ih]

/-! ## Runs -/

/-- `Put` finds its value already there, or an empty slot in front of all slots of the key, and
`Delete` finds one slot of the key at most. -/
def Fine (m : ArrayMap K V) : MapCall K V → Prop
  | .put key value => m.get key = some value ∨ roomBefore key m.table
  | .delete key => slotsOf key m.table ≤ 1

/-- Keys that a call is not for keep their values. -/
theorem get_step_of_ne {call : MapCall K V} (hne : k ≠ call.key) :
    (m.step call).get k = m.get k := by
  cases call with
  | put key value => exact getFrom_putFrom_of_ne hne
  | delete key => exact getFrom_deleteFrom_of_ne hne

theorem get_step_self_iff (call : MapCall K V) :
    (m.step call).get call.key = call.outcome ↔ m.Fine call := by
  cases call with
  | put key value =>
    show getFrom key (putFrom key value m.table) = some value ↔ _
    rw [getFrom_putFrom_self, Fine, get]
    split
    · next hroom => exact iff_of_true rfl (.inr hroom)
    · next hroom => exact (or_iff_left hroom).symm
  | delete key =>
    show getFrom key (deleteFrom key m.table) = none ↔ _
    rw [getFrom_eq_none_iff_slotsOf, slotsOf_deleteFrom, Fine]
    omega

/-- What a right answer needs of the last call. -/
theorem get_eq_answer_append_iff (h : ∀ k, (after N calls).get k = answer calls k)
    (call : MapCall K V) :
    (∀ k, (after N (calls ++ [call])).get k = answer (calls ++ [call]) k) ↔
      (after N calls).Fine call := by
  rw [← get_step_self_iff, after_append]
  constructor
  · intro hall
    rw [hall call.key, answer_append, if_pos rfl]
  · intro hself k
    rw [answer_append]
    by_cases hk : call.key = k
    · rw [if_pos hk, ← hk, hself]
    · rw [if_neg hk, get_step_of_ne (Ne.symm hk), h k]

/-- `Get` is right after every call of a run exactly when no call finds the key in a slot that
stays in the way. -/
theorem get_eq_answer_iff (N : ℕ) (calls : List (MapCall K V)) :
    (∀ done, done <+: calls → ∀ k, (after N done).get k = answer done k) ↔
      ∀ done call, done ++ [call] <+: calls → (after N done).Fine call := by
  induction calls using List.reverseRecOn with
  | nil =>
    refine iff_of_true (fun done hdone k => ?_) fun done call hdone => ?_
    · rw [List.prefix_nil.mp hdone]
      exact getFrom_replicate_none N
    · exact absurd (List.prefix_nil.mp hdone) (by simp)
  | append_singleton calls call ih =>
    -- on both sides the last call adds one condition, about the map before and after it
    have hleft : (∀ done, done <+: calls ++ [call] → ∀ k, (after N done).get k = answer done k) ↔
        (∀ done, done <+: calls → ∀ k, (after N done).get k = answer done k) ∧
          ∀ k, (after N (calls ++ [call])).get k = answer (calls ++ [call]) k := by
      simp only [List.prefix_concat_iff, or_imp, forall_and, forall_eq]
      exact and_comm
    have hright : (∀ done last, done ++ [last] <+: calls ++ [call] → (after N done).Fine last) ↔
        (∀ done last, done ++ [last] <+: calls → (after N done).Fine last) ∧
          (after N calls).Fine call := by
      simp only [List.prefix_concat_iff, List.append_singleton_inj, or_imp, forall_and, and_imp]
      constructor
      · rintro ⟨hlast, hall⟩
        exact ⟨hall, hlast calls call rfl rfl⟩
      · rintro ⟨hall, hlast⟩
        exact ⟨fun done last hdone hlast' => hdone ▸ hlast' ▸ hlast, hall⟩
    rw [hleft, hright, ← ih]
    exact and_congr_right fun hall => get_eq_answer_append_iff (hall calls List.prefix_rfl) call

/-- A key that is put twice keeps its first value, as `Put` takes the first empty slot. -/
theorem put_twice_keeps_first :
    (after 16 [MapCall.put 7 1, .put 7 2] : ArrayMap ℕ ℕ).get 7 = some 1 ∧
      answer [MapCall.put 7 1, .put 7 2] 7 = some 2 := by
  decide

end ArrayMap

end TommyOS.Usb
