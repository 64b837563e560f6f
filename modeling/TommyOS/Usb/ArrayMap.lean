import Mathlib.Data.Nat.Notation
import Mathlib.Tactic.TypeStar

/-!
# `ArrayMap`

A map in an array of fixed length. A slot is empty or holds a key with its value; what is put
into a full array is dropped.
-/

namespace TommyOS.Usb

/-- The slots of an `ArrayMap`. -/
structure ArrayMap (K V : Type*) where
  table : List (Option (K × V))

namespace ArrayMap

variable {K V : Type*} [DecidableEq K]

/-- An array of `N` empty slots. -/
def empty (N : ℕ) : ArrayMap K V := ⟨List.replicate N none⟩

/-- The loop of `Get`. -/
def getFrom (key : K) : List (Option (K × V)) → Option V
  | [] => none
  | none :: rest => getFrom key rest
  | some (k, v) :: rest => if k = key then some v else getFrom key rest

/-- The loop of `Put`. -/
def putFrom (key : K) (value : V) : List (Option (K × V)) → List (Option (K × V))
  | [] => []
  | none :: rest => some (key, value) :: rest
  | some e :: rest => some e :: putFrom key value rest

/-- The loop of `Delete`. -/
def deleteFrom (key : K) : List (Option (K × V)) → List (Option (K × V))
  | [] => []
  | none :: rest => none :: deleteFrom key rest
  | some (k, v) :: rest => if k = key then none :: rest else some (k, v) :: deleteFrom key rest

def get (m : ArrayMap K V) (key : K) : Option V := getFrom key m.table

def put (m : ArrayMap K V) (key : K) (value : V) : ArrayMap K V := ⟨putFrom key value m.table⟩

def delete (m : ArrayMap K V) (key : K) : ArrayMap K V := ⟨deleteFrom key m.table⟩

/-! ## Entries -/

variable {m : ArrayMap K V} {key key' : K} {value value' : V}

/-- A slot that is in use. -/
def HasEntry (m : ArrayMap K V) (key : K) (value : V) : Prop := some (key, value) ∈ m.table

omit [DecidableEq K] in
theorem not_hasEntry_empty (N : ℕ) : ¬ (empty N : ArrayMap K V).HasEntry key value := by
  intro h
  exact absurd (List.eq_of_mem_replicate h) (by simp)

theorem hasEntry_of_get (h : m.get key = some value) : m.HasEntry key value := by
  unfold get at h
  unfold HasEntry
  generalize m.table = table at h
  induction table with
  | nil => exact absurd h (by simp [getFrom])
  | cons e rest ih =>
    rcases e with _ | ⟨k, v⟩
    · exact List.mem_cons_of_mem _ (ih h)
    · unfold getFrom at h
      split at h
      · next hk =>
        rw [← hk, ← Option.some.inj h]
        exact List.mem_cons_self
      · exact List.mem_cons_of_mem _ (ih h)

omit [DecidableEq K] in
theorem hasEntry_of_put (h : (m.put key' value').HasEntry key value) :
    m.HasEntry key value ∨ key = key' ∧ value = value' := by
  unfold HasEntry put at h
  unfold HasEntry
  simp only at h
  generalize m.table = table at h
  induction table with
  | nil => exact .inl h
  | cons e rest ih =>
    rcases e with _ | e
    · rcases List.mem_cons.mp h with hnew | hold
      · simp only [Option.some.injEq, Prod.mk.injEq] at hnew
        exact .inr hnew
      · exact .inl (List.mem_cons_of_mem _ hold)
    · rcases List.mem_cons.mp h with hsame | hrest
      · rw [hsame]
        exact .inl List.mem_cons_self
      · rcases ih hrest with hold | hnew
        · exact .inl (List.mem_cons_of_mem _ hold)
        · exact .inr hnew

theorem hasEntry_of_delete (h : (m.delete key').HasEntry key value) : m.HasEntry key value := by
  unfold HasEntry delete at h
  unfold HasEntry
  simp only at h
  generalize m.table = table at h
  induction table with
  | nil => exact h
  | cons e rest ih =>
    rcases e with _ | ⟨k, v⟩
    · rcases List.mem_cons.mp h with hnone | hrest
      · exact absurd hnone (by simp)
      · exact List.mem_cons_of_mem _ (ih hrest)
    · unfold deleteFrom at h
      split at h
      · rcases List.mem_cons.mp h with hnone | hrest
        · exact absurd hnone (by simp)
        · exact List.mem_cons_of_mem _ hrest
      · rcases List.mem_cons.mp h with hsame | hrest
        · rw [hsame]
          exact List.mem_cons_self
        · exact List.mem_cons_of_mem _ (ih hrest)

/-- A key has a value as long as an entry is left of it. -/
theorem get_eq_none_iff : m.get key = none ↔ ∀ value, ¬ m.HasEntry key value := by
  unfold get HasEntry
  generalize m.table = table
  induction table with
  | nil => simp [getFrom]
  | cons e rest ih =>
    rcases e with _ | ⟨k, v⟩
    · rw [getFrom, ih]
      simp
    · by_cases hk : k = key
      · subst hk
        rw [getFrom, if_pos rfl]
        exact iff_of_false (by simp) fun hno => hno v List.mem_cons_self
      · rw [getFrom, if_neg hk, ih]
        simp [Ne.symm hk]

/-- An empty slot. -/
def HasRoom (m : ArrayMap K V) : Prop := none ∈ m.table

omit [DecidableEq K] in
theorem hasEntry_put_of_room (h : m.HasRoom) : (m.put key value).HasEntry key value := by
  unfold HasRoom at h
  unfold HasEntry put
  generalize m.table = table at h
  induction table with
  | nil => exact absurd h List.not_mem_nil
  | cons e rest ih =>
    rcases e with _ | e
    · exact List.mem_cons_self
    · exact List.mem_cons_of_mem _ (ih (by simpa using h))

omit [DecidableEq K] in
theorem hasEntry_put (h : m.HasEntry key value) : (m.put key' value').HasEntry key value := by
  unfold HasEntry at h
  unfold HasEntry put
  generalize m.table = table at h
  induction table with
  | nil => exact h
  | cons e rest ih =>
    rcases e with _ | e
    · exact List.mem_cons_of_mem _ (by simpa using h)
    · rcases List.mem_cons.mp h with hsame | hrest
      · rw [hsame]
        exact List.mem_cons_self
      · exact List.mem_cons_of_mem _ (ih hrest)

omit [DecidableEq K] in
/-- What is put into a full array is dropped. -/
theorem put_of_full (h : ¬ m.HasRoom) : m.put key value = m := by
  unfold HasRoom at h
  unfold put
  apply congrArg ArrayMap.mk
  generalize m.table = table at h
  induction table with
  | nil => rfl
  | cons e rest ih =>
    rcases e with _ | e
    · exact absurd List.mem_cons_self h
    · rw [putFrom, ih fun hmem => h (List.mem_cons_of_mem _ hmem)]

theorem hasEntry_delete_of_ne (hne : key ≠ key') (h : m.HasEntry key value) :
    (m.delete key').HasEntry key value := by
  unfold HasEntry at h
  unfold HasEntry delete
  generalize m.table = table at h
  induction table with
  | nil => exact h
  | cons e rest ih =>
    rcases e with _ | ⟨k, v⟩
    · exact List.mem_cons_of_mem _ (ih (by simpa using h))
    · unfold deleteFrom
      rcases List.mem_cons.mp h with hsame | hrest
      · simp only [Option.some.injEq, Prod.mk.injEq] at hsame
        rw [if_neg (hsame.1 ▸ hne), hsame.1, hsame.2]
        exact List.mem_cons_self
      · split
        · exact List.mem_cons_of_mem _ hrest
        · exact List.mem_cons_of_mem _ (ih hrest)

/-! ## Arrays that are only put into -/

/-- The array of `N` slots after some puts, and nothing else: the first `N` are kept. -/
def ofPuts (N : ℕ) (puts : List (K × V)) : ArrayMap K V :=
  ⟨(puts.take N).map some ++ List.replicate (N - puts.length) none⟩

omit [DecidableEq K] in
theorem ofPuts_nil (N : ℕ) : (ofPuts N [] : ArrayMap K V) = empty N := by
  unfold ofPuts empty
  rw [List.take_nil, List.map_nil, List.nil_append, List.length_nil, Nat.sub_zero]

omit [DecidableEq K] in
theorem putFrom_map_some (l : List (K × V)) (rest : List (Option (K × V))) :
    putFrom key value (l.map some ++ rest) = l.map some ++ putFrom key value rest := by
  induction l with
  | nil => rfl
  | cons e l ih =>
    show some e :: putFrom key value (l.map some ++ rest) = _
    rw [ih]
    rfl

omit [DecidableEq K] in
theorem put_ofPuts (N : ℕ) (puts : List (K × V)) :
    (ofPuts N puts).put key value = ofPuts N (puts ++ [(key, value)]) := by
  unfold ofPuts put
  apply congrArg ArrayMap.mk
  simp only
  rw [putFrom_map_some, List.length_append, List.length_singleton]
  by_cases hfull : N ≤ puts.length
  · rw [Nat.sub_eq_zero_of_le hfull, Nat.sub_eq_zero_of_le (by omega),
      List.take_append_of_le_length hfull]
    rfl
  · obtain ⟨k, hk⟩ := Nat.exists_eq_add_of_lt (Nat.lt_of_not_le hfull)
    rw [show N - puts.length = k + 1 by omega, show N - (puts.length + 1) = k by omega,
      List.take_of_length_le (by omega), List.take_of_length_le (by simp; omega), List.map_append,
      List.append_assoc]
    rfl

theorem getFrom_replicate_none (n : ℕ) :
    getFrom key (List.replicate n (none : Option (K × V))) = none := by
  induction n with
  | zero => rfl
  | succ n ih => exact ih

/-- The first of the puts that were kept counts. -/
theorem get_ofPuts (N : ℕ) (puts : List (K × V)) :
    (ofPuts N puts).get key = ((puts.take N).find? fun e => e.1 = key).map Prod.snd := by
  unfold ofPuts get
  simp only
  induction puts.take N with
  | nil => exact getFrom_replicate_none _
  | cons e l ih =>
    rw [List.map_cons, List.cons_append, getFrom, List.find?_cons, ih]
    by_cases hk : e.1 = key
    · simp [hk]
    · simp [hk]

end ArrayMap

end TommyOS.Usb
