import Mathlib.Data.Fintype.EquivFin
import Mathlib.Data.Fintype.Order
import Mathlib.Logic.Relation
import Mathlib.Order.WellFounded

/-!
# Chains of pointers

A list whose elements name their successors, up to the null pointer. The walk along it ends unless
an element on the way leads back to itself; where there are finitely many pointers nothing else can
keep it going.
-/

namespace PointerChain

open Relation

variable {P : Type*} {null : P} {next : P → P} {p q : P}

/-- An element leads to its successor. -/
def Leads (null : P) (next : P → P) (p q : P) : Prop := p ≠ null ∧ next p = q

theorem not_leads_null : ¬ Leads null next null q := fun h => h.1 rfl

/-- Whatever is on the way from an element is the element or on the way from its successor. -/
theorem reached_cases (h : ReflTransGen (Leads null next) p q) :
    q = p ∨ p ≠ null ∧ ReflTransGen (Leads null next) (next p) q := by
  rcases ReflTransGen.cases_head h with rfl | ⟨r, hlead, hrest⟩
  · exact .inl rfl
  · exact .inr ⟨hlead.1, hlead.2 ▸ hrest⟩

variable [DecidableEq P]

/-- The elements from a pointer on, where there are few enough. -/
def visits (null : P) (next : P → P) : ℕ → P → Option (List P)
  | 0, _ => none
  | n + 1, p => if p = null then some [] else (visits null next n (next p)).map (p :: ·)

theorem visits_null (n : ℕ) : visits null next (n + 1) null = some [] := if_pos rfl

theorem visits_of_ne (hp : p ≠ null) (n : ℕ) :
    visits null next (n + 1) p = (visits null next n (next p)).map (p :: ·) := if_neg hp

theorem not_cycle_of_visits {n : ℕ} {l : List P} (h : visits null next n p = some l)
    (hreached : ReflTransGen (Leads null next) p q) : ¬ TransGen (Leads null next) q q := by
  induction n generalizing p q l with
  | zero => exact nomatch h
  | succ n ih =>
    intro hcycle
    by_cases hp : p = null
    · subst hp
      obtain rfl : q = p := (reached_cases hreached).resolve_right fun hnull => hnull.1 rfl
      obtain ⟨r, hlead, -⟩ := TransGen.head'_iff.mp hcycle
      exact not_leads_null hlead
    · rw [visits_of_ne hp, Option.map_eq_some_iff] at h
      obtain ⟨rest, hrest, -⟩ := h
      rcases reached_cases hreached with rfl | ⟨-, hnext⟩
      · obtain ⟨r, hlead, hback⟩ := TransGen.head'_iff.mp hcycle
        obtain rfl : next q = r := hlead.2
        exact ih hrest hback hcycle
      · exact ih hrest hnext hcycle

theorem exists_visits [Finite P]
    (hacyclic : ∀ q, ReflTransGen (Leads null next) p q → ¬ TransGen (Leads null next) q q) :
    ∃ n l, visits null next n p = some l := by
  -- the pointers on the way, ordered by what leads to what
  let Way := {q // ReflTransGen (Leads null next) p q}
  let Before : Way → Way → Prop := fun a b => TransGen (Leads null next) b.1 a.1
  have htrans : IsTrans Way Before := ⟨fun a b c hab hbc => hbc.trans hab⟩
  have hirrefl : Std.Irrefl Before := ⟨fun a ha => hacyclic a.1 a.2 ha⟩
  have hwf : WellFounded Before := Finite.wellFounded_of_trans_of_irrefl Before
  have hall : ∀ a : Way, ∃ n l, visits null next n a.1 = some l := by
    intro a
    induction a using hwf.induction with
    | _ a ih =>
      by_cases ha : a.1 = null
      · exact ⟨1, [], by rw [ha, visits_null]⟩
      · have hlead : Leads null next a.1 (next a.1) := ⟨ha, rfl⟩
        obtain ⟨n, l, hl⟩ := ih ⟨next a.1, a.2.tail hlead⟩ (.single hlead)
        exact ⟨n + 1, a.1 :: l, by rw [visits_of_ne ha, hl, Option.map_some]⟩
  exact hall ⟨p, .refl⟩

/-- The walk ends exactly when nothing on the way leads back to itself. -/
theorem exists_visits_iff [Finite P] :
    (∃ n l, visits null next n p = some l) ↔
      ∀ q, ReflTransGen (Leads null next) p q → ¬ TransGen (Leads null next) q q :=
  ⟨fun ⟨_, _, h⟩ _ hreached => not_cycle_of_visits h hreached, exists_visits⟩

end PointerChain
