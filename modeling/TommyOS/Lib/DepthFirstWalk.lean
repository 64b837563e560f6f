import Mathlib.Data.List.Count
import Mathlib.Data.List.Nodup
import Mathlib.Data.Nat.Notation
import Mathlib.Logic.Relation
import Mathlib.Tactic.TypeStar

/-!
# Depth-first walks without a record of the places entered

A walk enters a place, meets the items there in order and, after an item that leads on, walks
the place it leads to. Nothing records which places were entered, so a place is walked as often
as it is led to, and the walk of a cyclic graph has no end: `walk n` is its part of depth `n`.
Nothing here names a particular program.
-/

namespace DepthFirstWalk

/-- A step of a walk. -/
inductive Visit (P A : Type*) where
  | enter (place : P)
  | meet (item : A)
deriving DecidableEq

variable {P A : Type*} (items : P → List A) (next : A → Option P)

/-- The walk of a place, down to a depth. -/
def walk : ℕ → P → List (Visit P A)
  | 0, _ => []
  | n + 1, p => .enter p :: (items p).flatMap fun a => .meet a :: (next a).toList.flatMap (walk n)

/-- What is walked from an item on: the item and the place it leads to. -/
def walkItem (n : ℕ) (a : A) : List (Visit P A) :=
  .meet a :: (next a).toList.flatMap (walk items next n)

theorem walk_succ (n : ℕ) (p : P) :
    walk items next (n + 1) p = .enter p :: (items p).flatMap (walkItem items next n) := rfl

/-- The items a walk meets. -/
def met (l : List (Visit P A)) : List A :=
  l.filterMap fun
    | .enter _ => none
    | .meet a => some a

@[simp] theorem met_nil : met ([] : List (Visit P A)) = [] := rfl

@[simp] theorem met_enter (p : P) (l : List (Visit P A)) : met (.enter p :: l) = met l := rfl

@[simp] theorem met_meet (a : A) (l : List (Visit P A)) : met (.meet a :: l) = a :: met l := rfl

@[simp] theorem met_append (l₁ l₂ : List (Visit P A)) : met (l₁ ++ l₂) = met l₁ ++ met l₂ :=
  List.filterMap_append

theorem met_flatMap {α : Type*} (f : α → List (Visit P A)) (l : List α) :
    met (l.flatMap f) = l.flatMap fun x => met (f x) := by
  induction l with
  | nil => rfl
  | cons x l ih => rw [List.flatMap_cons, List.flatMap_cons, met_append, ih]

theorem met_walk_succ (n : ℕ) (p : P) :
    met (walk items next (n + 1) p) =
      (items p).flatMap fun a =>
        a :: (next a).toList.flatMap fun q => met (walk items next n q) := by
  rw [walk_succ, met_enter, met_flatMap]
  congr 1
  funext a
  rw [walkItem, met_meet, met_flatMap]

/-! ## Which items are met -/

variable {items next}

/-- An item of one place leads to the other. -/
def LeadsTo (items : P → List A) (next : A → Option P) (p q : P) : Prop :=
  ∃ a ∈ items p, next a = some q

/-- Only items of places that are led to are met. -/
theorem exists_of_mem_met_walk {n : ℕ} {a : A} :
    ∀ {p : P}, a ∈ met (walk items next n p) →
      ∃ q, Relation.ReflTransGen (LeadsTo items next) p q ∧ a ∈ items q := by
  induction n with
  | zero =>
    intro p h
    exact absurd h List.not_mem_nil
  | succ n ih =>
    intro p h
    rw [met_walk_succ, List.mem_flatMap] at h
    obtain ⟨b, hb, hmem⟩ := h
    rcases List.mem_cons.mp hmem with rfl | hbelow
    · exact ⟨p, .refl, hb⟩
    · obtain ⟨q, hq, hmem'⟩ := List.mem_flatMap.mp hbelow
      obtain ⟨r, hr, ha⟩ := ih hmem'
      exact ⟨r, hr.head ⟨b, hb, Option.mem_toList.mp hq⟩, ha⟩

/-- An item of a place that is led to is met by every walk that is deep enough. -/
theorem exists_mem_met_walk {a : A} {p q : P}
    (hpath : Relation.ReflTransGen (LeadsTo items next) p q) (ha : a ∈ items q) :
    ∃ n, ∀ m, n < m → a ∈ met (walk items next m p) := by
  induction hpath using Relation.ReflTransGen.head_induction_on with
  | refl =>
    refine ⟨0, fun m hm => ?_⟩
    obtain ⟨m, rfl⟩ := Nat.exists_eq_succ_of_ne_zero (Nat.ne_of_gt hm)
    rw [met_walk_succ, List.mem_flatMap]
    exact ⟨a, ha, List.mem_cons_self⟩
  | head hstep _ ih =>
    obtain ⟨n, hn⟩ := ih
    obtain ⟨b, hb, hnext⟩ := hstep
    refine ⟨n + 1, fun m hm => ?_⟩
    obtain ⟨m, rfl⟩ := Nat.exists_eq_succ_of_ne_zero (Nat.ne_of_gt (Nat.zero_lt_of_lt hm))
    rw [met_walk_succ, List.mem_flatMap]
    refine ⟨b, hb, List.mem_cons_of_mem _ (List.mem_flatMap.mpr ?_)⟩
    exact ⟨_, Option.mem_toList.mpr hnext, hn m (Nat.lt_of_succ_lt_succ hm)⟩

/-! ## A walk that stops at the `k`-th item -/

/-- The part of a walk up to its `k`-th item. -/
def upTo : ℕ → List (Visit P A) → List (Visit P A)
  | 0, _ => []
  | _ + 1, [] => []
  | k + 1, .enter p :: l => .enter p :: upTo (k + 1) l
  | k + 1, .meet a :: l => .meet a :: upTo k l

@[simp] theorem upTo_zero (l : List (Visit P A)) : upTo 0 l = [] := by
  unfold upTo
  rfl

@[simp] theorem upTo_nil (k : ℕ) : upTo k ([] : List (Visit P A)) = [] := by
  cases k <;> rfl

@[simp] theorem upTo_enter (k : ℕ) (p : P) (l : List (Visit P A)) :
    upTo (k + 1) (.enter p :: l) = .enter p :: upTo (k + 1) l := rfl

@[simp] theorem upTo_meet (k : ℕ) (a : A) (l : List (Visit P A)) :
    upTo (k + 1) (.meet a :: l) = .meet a :: upTo k l := rfl

theorem met_upTo (l : List (Visit P A)) : ∀ k, met (upTo k l) = (met l).take k := by
  induction l with
  | nil =>
    intro k
    rw [upTo_nil, met_nil, List.take_nil]
  | cons v l ih =>
    intro k
    cases k with
    | zero => rw [upTo_zero, met_nil, List.take_zero]
    | succ k =>
      cases v with
      | enter p => rw [upTo_enter, met_enter, met_enter, ih]
      | meet a => rw [upTo_meet, met_meet, met_meet, ih, List.take_succ_cons]

theorem upTo_append (l₁ l₂ : List (Visit P A)) :
    ∀ k, upTo k (l₁ ++ l₂) = upTo k l₁ ++ upTo (k - (met l₁).length) l₂ := by
  induction l₁ with
  | nil =>
    intro k
    rw [List.nil_append, upTo_nil, met_nil, List.length_nil, Nat.sub_zero, List.nil_append]
  | cons v l₁ ih =>
    intro k
    cases k with
    | zero => rw [upTo_zero, upTo_zero, Nat.zero_sub, upTo_zero, List.append_nil]
    | succ k =>
      cases v with
      | enter p => rw [List.cons_append, upTo_enter, upTo_enter, ih, met_enter, List.cons_append]
      | meet a =>
        rw [List.cons_append, upTo_meet, upTo_meet, ih, met_meet, List.length_cons,
          Nat.succ_sub_succ, List.cons_append]

/-! ## Counting the steps of a walk that is cut -/

/-- Wherever the walk is cut, it has at most as many `F` steps as `G` steps, up to `c`. -/
def AtMost (F G : Visit P A → Bool) (c : ℕ) (l : List (Visit P A)) : Prop :=
  ∀ k, (upTo k l).countP F ≤ c + (upTo k l).countP G

namespace AtMost

variable {F G : Visit P A → Bool} {c d : ℕ} {l l₁ l₂ : List (Visit P A)}

theorem nil : AtMost F G 0 ([] : List (Visit P A)) := by
  intro k
  rw [upTo_nil, List.countP_nil]
  exact Nat.zero_le _

theorem append (h₁ : AtMost F G c l₁) (h₂ : AtMost F G d l₂) : AtMost F G (c + d) (l₁ ++ l₂) := by
  intro k
  have h₁' := h₁ k
  have h₂' := h₂ (k - (met l₁).length)
  rw [upTo_append, List.countP_append, List.countP_append]
  omega

theorem mono (h : AtMost F G c l) (hle : c ≤ d) : AtMost F G d l := by
  intro k
  have := h k
  omega

/-- A step in front: counted by `F`, by `G` or by the constant. -/
theorem cons {v : Visit P A} (h : AtMost F G c l)
    (hv : (if F v then 1 else 0) + c ≤ d + if G v then 1 else 0) : AtMost F G d (v :: l) := by
  intro k
  cases k with
  | zero =>
    rw [upTo_zero, List.countP_nil]
    exact Nat.zero_le _
  | succ k =>
    cases v with
    | enter p =>
      have := h (k + 1)
      rw [upTo_enter, List.countP_cons, List.countP_cons]
      omega
    | meet a =>
      have := h k
      rw [upTo_meet, List.countP_cons, List.countP_cons]
      omega

theorem flatMap {α : Type*} {f : α → List (Visit P A)} {as : List α}
    (h : ∀ a ∈ as, AtMost F G 0 (f a)) : AtMost F G 0 (as.flatMap f) := by
  induction as with
  | nil => exact nil
  | cons a as ih =>
    rw [List.flatMap_cons]
    exact (h a List.mem_cons_self).append (ih fun b hb => h b (List.mem_cons_of_mem a hb))

end AtMost

/-! ## How often a place is entered -/

section Entries

variable [DecidableEq P] [DecidableEq A]

/-- The steps that meet an item which leads to `p`. -/
def meetsLeadTo (next : A → Option P) (p : P) : Visit P A → Bool
  | .enter _ => false
  | .meet a => next a == some p

theorem countP_meet (a : A) (l : List (Visit P A)) :
    l.countP (· == .meet a) = (met l).count a := by
  induction l with
  | nil => rfl
  | cons v l ih =>
    cases v with
    | enter p => rw [List.countP_cons_of_neg (by simp), ih, met_enter]
    | meet b =>
      rw [List.countP_cons, ih, met_meet, List.count_cons]
      simp

omit [DecidableEq A] in
theorem countP_meetsLeadTo (p : P) (l : List (Visit P A)) :
    l.countP (meetsLeadTo next p) = (met l).countP (next · == some p) := by
  induction l with
  | nil => rfl
  | cons v l ih =>
    cases v with
    | enter p => rw [List.countP_cons_of_neg (by simp [meetsLeadTo]), ih, met_enter]
    | meet b =>
      rw [List.countP_cons, ih, met_meet, List.countP_cons]
      rfl

/-- An entry of a place is the start of the walk, or follows an item that leads there. -/
theorem walk_enter_atMost_lead (p : P) (n : ℕ) :
    ∀ r, AtMost (· == .enter p) (meetsLeadTo next p) (if r = p then 1 else 0)
      (walk items next n r) := by
  induction n with
  | zero =>
    intro r
    exact AtMost.nil.mono (Nat.zero_le _)
  | succ n ih =>
    intro r
    have hitems : AtMost (· == .enter p) (meetsLeadTo next p) 0
        ((items r).flatMap (walkItem items next n)) := by
      refine AtMost.flatMap fun a _ => ?_
      unfold walkItem
      cases hnext : next a with
      | none => exact AtMost.nil.cons (by simp)
      | some q =>
        have hbelow : AtMost (· == .enter p) (meetsLeadTo next p) (if q = p then 1 else 0)
            ((some q).toList.flatMap (walk items next n)) := by
          rw [Option.toList_some, List.flatMap_singleton]
          exact ih q
        exact hbelow.cons (by simp [meetsLeadTo, hnext])
    rw [walk_succ]
    exact hitems.cons (by simp [meetsLeadTo])

/-- Entering a place is at once followed by meeting its first item. -/
theorem walk_enter_atMost_meet {p : P} {a : A} {rest : List A} (hp : items p = a :: rest) (n : ℕ) :
    ∀ r, AtMost (· == .enter p) (· == .meet a) 0 (walk items next n r) := by
  induction n with
  | zero =>
    intro r
    exact AtMost.nil
  | succ n ih =>
    intro r
    have hbelow : ∀ b, AtMost (· == .enter p) (· == .meet a) 0
        ((next b).toList.flatMap (walk items next n)) :=
      fun b => AtMost.flatMap fun q _ => ih q
    have hitem : ∀ b, AtMost (· == .enter p) (· == .meet a) 0 (walkItem items next n b) :=
      fun b => (hbelow b).cons (by simp)
    rw [walk_succ]
    by_cases hr : r = p
    · rw [hr, hp, List.flatMap_cons]
      intro k
      cases k with
      | zero => exact Nat.le_of_eq (by simp)
      | succ k =>
        -- the entry is balanced by the item met right after it
        have hrest := ((hbelow a).append (AtMost.flatMap fun b _ => hitem b : AtMost _ _ 0
          (rest.flatMap (walkItem items next n)))) k
        have hsplit : upTo (k + 1) (.enter p :: (walkItem items next n a ++
            rest.flatMap (walkItem items next n))) =
            .enter p :: .meet a :: upTo k ((next a).toList.flatMap (walk items next n) ++
              rest.flatMap (walkItem items next n)) := rfl
        rw [hsplit, List.countP_cons, List.countP_cons, List.countP_cons, List.countP_cons]
        simp only [beq_self_eq_true, if_true, reduceCtorEq, beq_iff_eq, if_false]
        omega
    · exact (AtMost.flatMap fun b _ => hitem b).cons (by simp [hr])

variable {home : A → P}

/-- An item is met at most once for each entry of its place. -/
theorem walk_meet_atMost_enter (hhome : ∀ p, ∀ a ∈ items p, home a = p)
    (hnodup : ∀ p, (items p).Nodup) (a : A) (n : ℕ) :
    ∀ r, AtMost (· == .meet a) (· == .enter (home a)) 0 (walk items next n r) := by
  -- a place is entered before its items are met, and each of its items only once
  induction n with
  | zero =>
    intro r
    exact AtMost.nil
  | succ n ih =>
    intro r
    have hitems : ∀ as : List A, as.Nodup →
        AtMost (· == .meet a) (· == .enter (home a)) (if a ∈ as then 1 else 0)
          (as.flatMap (walkItem items next n)) := by
      intro as has
      induction as with
      | nil => exact AtMost.nil.mono (Nat.zero_le _)
      | cons b as ihas =>
        obtain ⟨hb, has'⟩ := List.nodup_cons.mp has
        -- what is below an item enters its own places for the items it meets
        have hbelow : AtMost (· == .meet a) (· == .enter (home a)) 0
            ((next b).toList.flatMap (walk items next n)) := AtMost.flatMap fun q _ => ih q
        rw [List.flatMap_cons, walkItem, List.cons_append]
        refine (hbelow.append (ihas has')).cons ?_
        by_cases hba : b = a
        · subst hba
          simp [hb]
        · simp [hba, Ne.symm hba, List.mem_cons]
    rw [walk_succ]
    refine (hitems (items r) (hnodup r)).cons ?_
    by_cases ha : a ∈ items r
    · simp [ha, hhome r a ha]
    · simp [ha]

end Entries

/-! ## Walks from several starts -/

section Starts

variable [DecidableEq P] [DecidableEq A] {home : A → P} {starts : List P}

/-- How often a place is entered before the `k`-th item is met. -/
def entries (k : ℕ) (p : P) (l : List (Visit P A)) : ℕ := (upTo k l).countP (· == .enter p)

/-- The places that are led to from one of the starts. -/
def Reached (items : P → List A) (next : A → Option P) (starts : List P) (p : P) : Prop :=
  ∃ r ∈ starts, Relation.ReflTransGen (LeadsTo items next) r p

/-- A start that an item leads to as well, where there is something to meet. -/
def LedToStart (items : P → List A) (next : A → Option P) (starts : List P) (r : P) : Prop :=
  r ∈ starts ∧ items r ≠ [] ∧ ∃ p, Reached items next starts p ∧ LeadsTo items next p r

omit [DecidableEq P] [DecidableEq A] in
theorem reached_of_mem_met {n : ℕ} {a : A} (h : a ∈ met (starts.flatMap (walk items next n))) :
    ∃ p, Reached items next starts p ∧ a ∈ items p := by
  rw [met_flatMap, List.mem_flatMap] at h
  obtain ⟨r, hr, ha⟩ := h
  obtain ⟨p, hp, ha'⟩ := exists_of_mem_met_walk ha
  exact ⟨p, ⟨r, hr, hp⟩, ha'⟩

variable (items next) in
theorem starts_enter_atMost_lead (p : P) (n : ℕ) (starts : List P) :
    AtMost (· == .enter p) (meetsLeadTo next p) (starts.count p)
      (starts.flatMap (walk items next n)) := by
  induction starts with
  | nil => exact AtMost.nil
  | cons r starts ih =>
    rw [List.flatMap_cons, List.count_cons]
    refine ((walk_enter_atMost_lead p n r).append ih).mono ?_
    by_cases h : r = p
    · simp [h, Nat.add_comm]
    · simp [h]

variable (items next) in
theorem starts_enter_atMost_meet {p : P} {a : A} {rest : List A} (hp : items p = a :: rest)
    (n : ℕ) (starts : List P) :
    AtMost (· == .enter p) (· == .meet a) 0 (starts.flatMap (walk items next n)) :=
  AtMost.flatMap fun r _ => walk_enter_atMost_meet hp n r

variable (items next) in
theorem starts_meet_atMost_enter (hhome : ∀ p, ∀ a ∈ items p, home a = p)
    (hnodup : ∀ p, (items p).Nodup) (a : A) (n : ℕ) (starts : List P) :
    AtMost (· == .meet a) (· == .enter (home a)) 0 (starts.flatMap (walk items next n)) :=
  AtMost.flatMap fun r _ => walk_meet_atMost_enter hhome hnodup a n r

/-- No item is met twice when no place with an item is entered twice, and conversely. -/
theorem nodup_met_iff_entries (hhome : ∀ p, ∀ a ∈ items p, home a = p)
    (hnodup : ∀ p, (items p).Nodup) (n k : ℕ) (starts : List P) :
    (met (upTo k (starts.flatMap (walk items next n)))).Nodup ↔
      ∀ p, items p ≠ [] → entries k p (starts.flatMap (walk items next n)) ≤ 1 := by
  constructor
  -- an entry is counted by the first item of the place
  · intro h p hp
    obtain ⟨a, rest, hfirst⟩ := List.exists_cons_of_ne_nil hp
    have hmet := starts_enter_atMost_meet items next hfirst n starts k
    rw [countP_meet] at hmet
    have hone := List.nodup_iff_count_le_one.mp h a
    unfold entries
    omega
  · intro h
    rw [List.nodup_iff_count_le_one]
    -- an item that is met is met in its home
    intro a
    by_cases ha : a ∈ met (upTo k (starts.flatMap (walk items next n)))
    · have hplace : items (home a) ≠ [] := by
        rw [met_upTo] at ha
        obtain ⟨p, _, hp⟩ := reached_of_mem_met (List.mem_of_mem_take ha)
        rw [hhome p a hp]
        exact List.ne_nil_of_mem hp
      have hmet := starts_meet_atMost_enter items next hhome hnodup a n starts k
      rw [countP_meet] at hmet
      have hone := h (home a) hplace
      unfold entries at hone
      omega
    · rw [List.count_eq_zero_of_not_mem ha]
      exact Nat.zero_le _

/-- Where at most one item leads to a place, a second entry of a place goes back to a second
entry of a start: the walk came to that start by an item. -/
theorem exists_ledToStart (hhome : ∀ p, ∀ a ∈ items p, home a = p)
    (hnodup : ∀ p, (items p).Nodup) (hstarts : starts.Nodup)
    (hunique : ∀ p q a b, Reached items next starts p → Reached items next starts q →
      a ∈ items p → b ∈ items q → next a = next b → next a ≠ none → a = b)
    (n k : ℕ) {p : P} (hp : Reached items next starts p) (hne : items p ≠ [])
    (htwice : 1 < entries k p (starts.flatMap (walk items next n))) :
    ∃ r, LedToStart items next starts r ∧
      1 < entries k r (starts.flatMap (walk items next n)) := by
  obtain ⟨r, hr, hpath⟩ := hp
  induction hpath with
  | refl =>
    -- one of the two entries is not the start itself, so an item leads here
    have hlead := starts_enter_atMost_lead items next r n starts k
    have hcount := List.nodup_iff_count_le_one.mp hstarts r
    unfold entries at htwice
    rw [countP_meetsLeadTo, met_upTo] at hlead
    have hpos : 0 < ((met (starts.flatMap (walk items next n))).take k).countP
        (next · == some r) := by omega
    obtain ⟨a, ha, hnext⟩ := List.countP_pos_iff.mp hpos
    obtain ⟨q, hq, haq⟩ := reached_of_mem_met (List.mem_of_mem_take ha)
    exact ⟨r, ⟨hr, hne, q, hq, a, haq, eq_of_beq hnext⟩, htwice⟩
  | @tail q p hq hlast ih =>
    by_cases hstart : p ∈ starts
    · exact ⟨p, ⟨hstart, hne, q, ⟨r, hr, hq⟩, hlast⟩, htwice⟩
    · obtain ⟨a, ha, hnext⟩ := hlast
      have hlead := starts_enter_atMost_lead items next p n starts k
      rw [List.count_eq_zero_of_not_mem hstart, countP_meetsLeadTo] at hlead
      -- every item met that leads to `p` is `a`
      have honly : (met (upTo k (starts.flatMap (walk items next n)))).countP
          (next · == some p) ≤
          (met (upTo k (starts.flatMap (walk items next n)))).count a := by
        refine List.countP_mono_left fun b hb hbnext => ?_
        rw [met_upTo] at hb
        obtain ⟨q', hq', hb'⟩ := reached_of_mem_met (List.mem_of_mem_take hb)
        have hbp : next b = some p := eq_of_beq hbnext
        have heq : a = b := hunique q q' a b ⟨r, hr, hq⟩ hq' ha hb' (hnext.trans hbp.symm)
          (by rw [hnext]; exact Option.some_ne_none p)
        exact beq_iff_eq.mpr heq.symm
      have hmet := starts_meet_atMost_enter items next hhome hnodup a n starts k
      rw [countP_meet, hhome q a ha] at hmet
      refine ih (List.ne_nil_of_mem ha) ?_
      unfold entries at htwice ⊢
      omega

/-- With at most one item leading to each place, no item is met twice before the walk is cut
if and only if no start that is led to is entered twice. -/
theorem nodup_met_iff (hhome : ∀ p, ∀ a ∈ items p, home a = p)
    (hnodup : ∀ p, (items p).Nodup) (hstarts : starts.Nodup)
    (hunique : ∀ p q a b, Reached items next starts p → Reached items next starts q →
      a ∈ items p → b ∈ items q → next a = next b → next a ≠ none → a = b) (n k : ℕ) :
    (met (upTo k (starts.flatMap (walk items next n)))).Nodup ↔
      ∀ r, LedToStart items next starts r →
        entries k r (starts.flatMap (walk items next n)) ≤ 1 := by
  rw [nodup_met_iff_entries hhome hnodup]
  constructor
  · intro h r hr
    exact h r hr.2.1
  · intro h p hne
    by_contra htwice
    -- a place that is entered twice has its first item met, so it is reached
    have hreached : Reached items next starts p := by
      obtain ⟨a, rest, hfirst⟩ := List.exists_cons_of_ne_nil hne
      have hmet := starts_enter_atMost_meet items next hfirst n starts k
      rw [countP_meet, met_upTo] at hmet
      unfold entries at htwice
      have hpos : 0 < ((met (starts.flatMap (walk items next n))).take k).count a := by omega
      obtain ⟨q, hq, ha⟩ := reached_of_mem_met (List.mem_of_mem_take (List.count_pos_iff.mp hpos))
      have hqp : q = p := by
        rw [← hhome q a ha]
        exact hhome p a (by rw [hfirst]; exact List.mem_cons_self)
      rw [← hqp]
      exact hq
    obtain ⟨r, hr, htwice'⟩ := exists_ledToStart hhome hnodup hstarts hunique n k hreached hne
      (Nat.lt_of_not_le htwice)
    exact absurd (h r hr) (Nat.not_le_of_lt htwice')

end Starts

end DepthFirstWalk
