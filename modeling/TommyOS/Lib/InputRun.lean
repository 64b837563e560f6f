import Mathlib.Data.List.Basic
import Mathlib.Logic.Basic
import Mathlib.Tactic.TypeStar

/-!
# Runs over inputs

A system that is a function of its state and an input, and has no result where it would go wrong.
A run takes one input after the other. What is said about a run holds for every list of inputs;
nothing here names a particular program.
-/

namespace InputRun

variable {σ α β : Type*} {step : σ → α → Option σ} {P : σ → α → Prop} {s t : σ} {as bs : List α}

/-- The state after some inputs. -/
def run (step : σ → α → Option σ) (s : σ) (as : List α) : Option σ := as.foldlM step s

theorem run_cons {a : α} :
    run step s (a :: as) = some t ↔ ∃ u, step s a = some u ∧ run step u as = some t := by
  unfold run
  rw [List.foldlM_cons, Option.bind_eq_bind, Option.bind_eq_some_iff]

theorem run_append :
    run step s (as ++ bs) = some t ↔ ∃ u, run step s as = some u ∧ run step u bs = some t := by
  unfold run
  rw [List.foldlM_append, Option.bind_eq_bind, Option.bind_eq_some_iff]

/-- What every step keeps is kept by a run. -/
theorem run_invariant {R : σ → Prop} (hstep : ∀ s a t, R s → step s a = some t → R t) (hs : R s)
    (h : run step s as = some t) : R t := by
  induction as generalizing s with
  | nil => exact Option.some.inj h ▸ hs
  | cons a as ih =>
    obtain ⟨u, hu, h⟩ := run_cons.mp h
    exact ih (hstep s a u hs hu) h

/-- Some input meets a condition in the state that it is given to. -/
def Meets (step : σ → α → Option σ) (P : σ → α → Prop) : σ → List α → Prop
  | _, [] => False
  | s, a :: as => P s a ∨ ∃ u, step s a = some u ∧ Meets step P u as

/-- Every input meets a condition in the state that it is given to. -/
def Throughout (step : σ → α → Option σ) (P : σ → α → Prop) : σ → List α → Prop
  | _, [] => True
  | s, a :: as => P s a ∧ ∀ u, step s a = some u → Throughout step P u as

/-- Conditions that agree where an invariant holds, which the inputs that meet them keep. -/
theorem throughout_congr {Q : σ → α → Prop} {R : σ → Prop}
    (hstep : ∀ s a t, R s → P s a → step s a = some t → R t)
    (hPQ : ∀ s a, R s → (P s a ↔ Q s a)) (hs : R s) :
    Throughout step P s as ↔ Throughout step Q s as := by
  induction as generalizing s with
  | nil => exact Iff.rfl
  | cons a as ih =>
    unfold Throughout
    rw [← hPQ s a hs]
    exact and_congr_right fun hP => forall₂_congr fun u hu => ih (hstep s a u hs hP hu)

section Observed

variable {f : σ → β} {v : β}

/-- What is set by the inputs that meet a condition, and by no others. -/
theorem observed_of_run (hkeep : ∀ s a t, step s a = some t → ¬ P s a → f t = f s)
    (hset : ∀ s a t, step s a = some t → P s a → f t = v) (h : run step s as = some t) :
    (¬ Meets step P s as → f t = f s) ∧ (Meets step P s as ∨ f s = v → f t = v) := by
  induction as generalizing s with
  | nil =>
    obtain rfl := Option.some.inj h
    exact ⟨fun _ => rfl, fun hv => hv.resolve_left fun hmeets => hmeets⟩
  | cons a as ih =>
    obtain ⟨u, hu, h⟩ := run_cons.mp h
    obtain ⟨hrest, hlatched⟩ := ih h
    by_cases hmeets : P s a
    · exact ⟨fun hnot => absurd (.inl hmeets) hnot, fun _ => hlatched (.inr (hset s a u hu hmeets))⟩
    · have hsame := hkeep s a u hu hmeets
      refine ⟨fun hnot => (hrest fun hlater => hnot (.inr ⟨u, hu, hlater⟩)).trans hsame, ?_⟩
      rintro ((hnow | ⟨u', hu', hlater⟩) | hv)
      · exact absurd hnow hmeets
      · rw [hu, Option.some.injEq] at hu'
        exact hlatched (.inl (hu' ▸ hlater))
      · exact hlatched (.inr (hsame.trans hv))

/-- It is as it was exactly after the runs without such an input. -/
theorem observed_eq_iff (hkeep : ∀ s a t, step s a = some t → ¬ P s a → f t = f s)
    (hset : ∀ s a t, step s a = some t → P s a → f t = v) (hne : f s ≠ v)
    (h : run step s as = some t) : f t = f s ↔ ¬ Meets step P s as := by
  obtain ⟨hkept, hlatched⟩ := observed_of_run hkeep hset h
  exact ⟨fun hsame hmeets => hne (hsame.symm.trans (hlatched (.inl hmeets))), hkept⟩

end Observed

end InputRun
