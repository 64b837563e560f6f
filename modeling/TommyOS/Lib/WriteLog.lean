import Mathlib.Data.List.Basic
import Mathlib.Data.Set.Basic
import Mathlib.Logic.Function.Basic

/-!
# Logs of writes

A program that draws, or stores, is a list of writes to cells. What it leaves in a cell is
the value of the last write to it, and this module computes that value through the ways such
lists are put together: concatenation, loops, and writes that stand for several writes to
smaller cells. A `CellStore` is anything the writes can be carried out on.
-/

namespace WriteLog

variable {κ ν κ' ν' α σ τ : Type*} [DecidableEq κ] [DecidableEq κ']

/-! ## The last write -/

/-- The value of the last write to `k`, if there is one. -/
def lastWrite : List (κ × ν) → κ → Option ν
  | [], _ => none
  | w :: log, k => (lastWrite log k).or (if w.1 = k then some w.2 else none)

@[simp] theorem lastWrite_nil (k : κ) : lastWrite ([] : List (κ × ν)) k = none := rfl

theorem lastWrite_cons (w : κ × ν) (log : List (κ × ν)) (k : κ) :
    lastWrite (w :: log) k = (lastWrite log k).or (if w.1 = k then some w.2 else none) := rfl

theorem lastWrite_append (log log' : List (κ × ν)) (k : κ) :
    lastWrite (log ++ log') k = (lastWrite log' k).or (lastWrite log k) := by
  induction log with
  | nil => simp
  | cons w log ih => rw [List.cons_append, lastWrite_cons, lastWrite_cons, ih, Option.or_assoc]

theorem mem_of_lastWrite {log : List (κ × ν)} {k : κ} {v : ν} (h : lastWrite log k = some v) :
    (k, v) ∈ log := by
  induction log with
  | nil => simp at h
  | cons w log ih =>
    rw [lastWrite_cons, Option.or_eq_some_iff] at h
    -- the write is a later one, or the first one with none after it
    rcases h with hlater | ⟨_, hhead⟩
    · exact List.mem_cons_of_mem w (ih hlater)
    · by_cases hk : w.1 = k
      · rw [if_pos hk] at hhead
        rw [← hk, ← Option.some.inj hhead]
        exact List.mem_cons_self
      · rw [if_neg hk] at hhead
        exact absurd hhead (by simp)

theorem lastWrite_eq_none_iff {log : List (κ × ν)} {k : κ} :
    lastWrite log k = none ↔ ∀ w ∈ log, w.1 ≠ k := by
  induction log with
  | nil => simp
  | cons w log ih =>
    rw [lastWrite_cons, Option.or_eq_none_iff, ih, List.forall_mem_cons]
    by_cases hk : w.1 = k
    · simp [hk]
    · simp [hk]

/-- When all writes to a cell store the same value, that value is what the cell holds. -/
theorem lastWrite_eq_some_of_unique {log : List (κ × ν)} {k : κ} {v : ν} (hmem : (k, v) ∈ log)
    (hunique : ∀ v', (k, v') ∈ log → v' = v) : lastWrite log k = some v := by
  cases h : lastWrite log k with
  | none => exact absurd rfl (lastWrite_eq_none_iff.mp h _ hmem)
  | some v' => rw [hunique v' (mem_of_lastWrite h)]

/-- A loop: the last iteration that writes to a cell decides. -/
theorem lastWrite_flatMap (l : List α) (f : α → List (κ × ν)) (k : κ) :
    lastWrite (l.flatMap f) k = l.reverse.findSome? fun a => lastWrite (f a) k := by
  induction l with
  | nil => rfl
  | cons a l ih =>
    rw [List.flatMap_cons, lastWrite_append, ih, List.reverse_cons, List.findSome?_append]
    simp

/-! ## Writes made of smaller writes -/

section Encode

variable {encode : κ × ν → List (κ' × ν')} {log : List (κ × ν)} {a : κ'}

/-- A small cell that only the writes to `k` touch holds its part of the last of them. -/
theorem lastWrite_encode {k : κ} {part : ν → ν'}
    (hself : ∀ v, lastWrite (encode (k, v)) a = some (part v))
    (hother : ∀ w ∈ log, w.1 ≠ k → lastWrite (encode w) a = none) :
    lastWrite (log.flatMap encode) a = (lastWrite log k).map part := by
  induction log with
  | nil => rfl
  | cons w log ih =>
    have hlog := ih fun w' hw' => hother w' (List.mem_cons_of_mem w hw')
    rw [List.flatMap_cons, lastWrite_append, hlog, lastWrite_cons]
    by_cases hk : w.1 = k
    -- the first write is to `k`: it counts when no later one is
    · have hw : w = (k, w.2) := Prod.ext hk rfl
      rw [if_pos hk, hw, hself]
      cases lastWrite log k with
      | none => rfl
      | some v => rfl
    · rw [if_neg hk, hother w List.mem_cons_self hk]
      simp

omit [DecidableEq κ] in
/-- A small cell that no write touches. -/
theorem lastWrite_encode_eq_none (h : ∀ w ∈ log, lastWrite (encode w) a = none) :
    lastWrite (log.flatMap encode) a = none := by
  rw [lastWrite_flatMap, List.findSome?_eq_none_iff]
  exact fun w hw => h w (List.mem_reverse.mp hw)

end Encode

/-! ## Carrying out the writes -/

/-- The writes of a log carried out on a memory. -/
def store (mem : κ → ν) (log : List (κ × ν)) : κ → ν :=
  log.foldl (fun mem w => Function.update mem w.1 w.2) mem

theorem store_apply (mem : κ → ν) (log : List (κ × ν)) (k : κ) :
    store mem log k = (lastWrite log k).getD (mem k) := by
  induction log generalizing mem with
  | nil => rfl
  | cons w log ih =>
    have hstep : store mem (w :: log) k = store (Function.update mem w.1 w.2) log k := rfl
    rw [hstep, ih, lastWrite_cons]
    cases lastWrite log k with
    | some v => rfl
    | none =>
      by_cases hk : w.1 = k
      · rw [← hk]
        simp
      · rw [Function.update_of_ne (Ne.symm hk)]
        simp [hk]

/-- Something with cells: a write may be undefined. -/
structure CellStore (σ κ ν : Type*) where
  write : σ → κ → ν → Option σ
  read : σ → κ → ν

/-- The writes of a log carried out on a store. -/
def CellStore.replay (cs : CellStore σ κ ν) (s : σ) (log : List (κ × ν)) : Option σ :=
  log.foldlM (fun s w => cs.write s w.1 w.2) s

/-- On the cells of a set, writes to a valid state are defined and each changes its own cell
only. -/
def CellStore.Lawful (cs : CellStore σ κ ν) (valid : Set σ) (cells : Set κ) : Prop :=
  ∀ s ∈ valid, ∀ k ∈ cells, ∀ v, ∃ s' ∈ valid, cs.write s k v = some s' ∧
    ∀ k' ∈ cells, cs.read s' k' = if k' = k then v else cs.read s k'

theorem CellStore.Lawful.mono {cs : CellStore σ κ ν} {valid : Set σ} {cells cells' : Set κ}
    (h : cs.Lawful valid cells) (hsub : cells' ⊆ cells) : cs.Lawful valid cells' := by
  intro s hs k hk v
  obtain ⟨s', hs', hwrite, hread⟩ := h s hs k (hsub hk) v
  exact ⟨s', hs', hwrite, fun k' hk' => hread k' (hsub hk')⟩

/-- A store that is one of two kinds. -/
def CellStore.sum (cs : CellStore σ κ ν) (cs' : CellStore τ κ ν) : CellStore (σ ⊕ τ) κ ν where
  write s k v :=
    match s with
    | .inl s => (cs.write s k v).map .inl
    | .inr s => (cs'.write s k v).map .inr
  read s k :=
    match s with
    | .inl s => cs.read s k
    | .inr s => cs'.read s k

theorem CellStore.Lawful.sum {cs : CellStore σ κ ν} {cs' : CellStore τ κ ν} {valid : Set σ}
    {valid' : Set τ} {cells : Set κ} (h : cs.Lawful valid cells) (h' : cs'.Lawful valid' cells) :
    (cs.sum cs').Lawful {s | Sum.elim (· ∈ valid) (· ∈ valid') s} cells := by
  intro s hs k hk v
  cases s with
  | inl s =>
    obtain ⟨s', hs', hwrite, hread⟩ := h s hs k hk v
    refine ⟨.inl s', hs', ?_, hread⟩
    show (cs.write s k v).map Sum.inl = _
    rw [hwrite, Option.map_some]
  | inr s =>
    obtain ⟨s', hs', hwrite, hread⟩ := h' s hs k hk v
    refine ⟨.inr s', hs', ?_, hread⟩
    show (cs'.write s k v).map Sum.inr = _
    rw [hwrite, Option.map_some]

/-- A log on such a set leaves the last write in every cell of it. -/
theorem CellStore.Lawful.replay {cs : CellStore σ κ ν} {valid : Set σ} {cells : Set κ}
    (h : cs.Lawful valid cells) {s : σ} (hs : s ∈ valid) {log : List (κ × ν)}
    (hlog : ∀ w ∈ log, w.1 ∈ cells) :
    ∃ s' ∈ valid, cs.replay s log = some s' ∧
      ∀ k ∈ cells, cs.read s' k = (lastWrite log k).getD (cs.read s k) := by
  induction log generalizing s with
  | nil => exact ⟨s, hs, rfl, fun k _ => rfl⟩
  | cons w log ih =>
    rw [List.forall_mem_cons] at hlog
    obtain ⟨s₁, hs₁, hwrite, hread⟩ := h s hs w.1 hlog.1 w.2
    obtain ⟨s', hs', hreplay, hread'⟩ := ih hs₁ hlog.2
    refine ⟨s', hs', ?_, fun k hk => ?_⟩
    · unfold CellStore.replay
      rw [List.foldlM_cons, hwrite]
      exact hreplay
    · rw [hread' k hk, hread k hk, lastWrite_cons]
      -- a later write to `k` decides, or else the first write, or else the old contents
      cases lastWrite log k with
      | some v => rfl
      | none =>
        by_cases hkw : w.1 = k
        · simp [hkw]
        · have hne : ¬ k = w.1 := fun heq => hkw heq.symm
          simp [hkw, hne]

end WriteLog
