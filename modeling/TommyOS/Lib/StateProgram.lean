import Mathlib.Data.Option.Basic

/-!
# Programs over a state and what they mean

A program runs over a state that carries more than what it means: registers that latch, buffers,
caches. `Gives` says what a run returns and what the state means afterwards. The rules follow the
program, so that a program is refined step by step by the function that it implements. Nothing here
names a particular state.
-/

namespace StateProgram

variable {σ τ α β : Type}

/-- Run in `s`, the program returns `v`, with the meaning of the state after it. -/
def Gives (abs : σ → τ) (m : StateT σ Option α) (s : σ) (v : Option (α × τ)) : Prop :=
  (m.run s).map (fun r => (r.1, abs r.2)) = v

/-- The program returns `v`, and the state means `t` after it. -/
abbrev Observes (abs : σ → τ) (t : τ) (m : StateT σ Option α) (s : σ) (v : Option α) : Prop :=
  Gives abs m s (v.map fun a => (a, t))

variable {abs : σ → τ} {m : StateT σ Option α} {k : α → StateT σ Option β} {s : σ} {t : τ}

theorem gives_pure (a : α) (hs : abs s = t) : Gives abs (pure a) s (some (a, t)) := by
  subst hs
  rfl

theorem gives_none : Gives abs (StateT.lift none : StateT σ Option α) s none := rfl

/-- A step that returns, and the rest of the program in any state of the same meaning. -/
theorem Gives.seq {a : α} {w : Option (β × τ)} (hm : Gives abs m s (some (a, t)))
    (hk : ∀ s', abs s' = t → Gives abs (k a) s' w) : Gives abs (m >>= k) s w := by
  obtain ⟨⟨a', s'⟩, hrun, hresult⟩ := Option.map_eq_some_iff.mp hm
  obtain ⟨rfl, ht⟩ := Prod.mk.inj hresult
  unfold Gives
  rw [StateT.run_bind, hrun]
  exact hk s' ht

/-- A step that may not return. -/
theorem Gives.bind {v : Option (α × τ)} {g : α × τ → Option (β × τ)} (hm : Gives abs m s v)
    (hk : ∀ a s', Gives abs (k a) s' (g (a, abs s'))) : Gives abs (m >>= k) s (v.bind g) := by
  cases hv : v with
  | none =>
    rw [hv] at hm
    have hrun : m.run s = none := Option.map_eq_none_iff.mp hm
    unfold Gives
    rw [StateT.run_bind, hrun]
    rfl
  | some r =>
    rw [hv] at hm
    refine hm.seq fun s' hs' => ?_
    have hrest := hk r.1 s'
    rw [hs'] at hrest
    exact hrest

/-- Two steps that leave the meaning of the state. -/
theorem Observes.bind {v : Option α} {g : α → Option (β × τ)} (hm : Observes abs t m s v)
    (hk : ∀ a s', abs s' = t → Gives abs (k a) s' (g a)) :
    Gives abs (m >>= k) s (v.bind g) := by
  cases v with
  | none =>
    have hrun : m.run s = none := Option.map_eq_none_iff.mp hm
    unfold Gives
    rw [StateT.run_bind, hrun]
    rfl
  | some a => exact hm.seq fun s' hs' => hk a s' hs'

/-- The same, when the rest leaves it too. -/
theorem Observes.andThen {v : Option α} {g : α → Option β} (hm : Observes abs t m s v)
    (hk : ∀ a s', abs s' = t → Observes abs t (k a) s' (g a)) :
    Observes abs t (m >>= k) s (v.bind g) := by
  unfold Observes
  rw [Option.map_bind]
  exact hm.bind fun a s' hs' => hk a s' hs'

end StateProgram
