import Mathlib.Logic.Basic
import Mathlib.Tactic.TypeStar

/-!
# Transition systems

The common shape of the run arguments of this development: a system starts in one of its
initial states and takes steps, an invariant holds initially and is kept by every step,
and a concrete system is related to an abstract one by a simulation. Nothing here names a
particular program.
-/

/-- A transition system: where a run may start and which steps it may take. -/
structure TransitionSystem (σ : Type*) where
  init : σ → Prop
  step : σ → σ → Prop

namespace TransitionSystem

variable {σ τ : Type*}

/-- The states a run of `T` can be in. -/
inductive Reachable (T : TransitionSystem σ) : σ → Prop where
  | start {s : σ} : T.init s → Reachable T s
  | next {s t : σ} : Reachable T s → T.step s t → Reachable T t

/-- A property that holds initially and that every step from a reachable state keeps
holds in every reachable state. -/
theorem Reachable.invariant {T : TransitionSystem σ} {P : σ → Prop}
    (hinit : ∀ s, T.init s → P s)
    (hstep : ∀ s t, T.Reachable s → P s → T.step s t → P t) :
    ∀ {s : σ}, T.Reachable s → P s := by
  intro s hs
  induction hs with
  | start h => exact hinit _ h
  | next hr ht ih => exact hstep _ _ hr ih ht

/-- Steps that can be executed one after the other make a run. -/
theorem Reachable.foldlM {α : Type*} {T : TransitionSystem σ} {act : σ → α → Option σ}
    (hact : ∀ s a t, act s a = some t → T.step s t) {s t : σ} (hs : T.Reachable s) {as : List α}
    (hrun : as.foldlM act s = some t) : T.Reachable t := by
  induction as generalizing s with
  | nil => exact Option.some.inj hrun ▸ hs
  | cons a as ih =>
    rw [List.foldlM_cons, Option.bind_eq_bind, Option.bind_eq_some_iff] at hrun
    obtain ⟨u, hu, hrest⟩ := hrun
    exact ih (hs.next (hact s a u hu)) hrest

/-- `R` relates every concrete run to an abstract one: initial states are matched, and a
concrete step from a state related to a reachable abstract one is matched by one abstract
step or by none. -/
structure Simulates (C : TransitionSystem σ) (A : TransitionSystem τ) (R : σ → τ → Prop) :
    Prop where
  init : ∀ s, C.init s → ∃ a, A.init a ∧ R s a
  step : ∀ s t a, A.Reachable a → R s a → C.step s t → R t a ∨ ∃ b, A.step a b ∧ R t b

/-- A state reached by the concrete system is related to a state reached by the abstract
one, so abstract invariants carry over. -/
theorem Simulates.reachable {C : TransitionSystem σ} {A : TransitionSystem τ}
    {R : σ → τ → Prop} (hsim : Simulates C A R) {s : σ} (hs : C.Reachable s) :
    ∃ a, A.Reachable a ∧ R s a := by
  induction hs with
  | start h =>
    obtain ⟨a, ha, hR⟩ := hsim.init _ h
    exact ⟨a, .start ha, hR⟩
  | next _ ht ih =>
    obtain ⟨a, ha, hR⟩ := ih
    -- a stuttering step keeps the abstract state, a matched one extends its run
    rcases hsim.step _ _ _ ha hR ht with h | ⟨b, hb, hR'⟩
    · exact ⟨a, ha, h⟩
    · exact ⟨b, .next ha hb, hR'⟩

end TransitionSystem
