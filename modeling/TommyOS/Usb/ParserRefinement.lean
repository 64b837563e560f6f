import TommyOS.Usb.ConfigurationParser

/-!
# The parser and `readInterfaces`

The steps of the parser and the loops of `readInterfaces`, which take a bound on their rounds,
are the same function: the loops return for some bound exactly when the parser ends.
-/

namespace TommyOS.Usb
namespace ConfigurationParser

open ConfigurationDescriptorReader

variable {buf : ℕ → BitVec 8} {len : ℕ} {s : State} {m : Machine} {d d' : Device}

/-- The parser ends from a state on. -/
inductive Ends (buf : ℕ → BitVec 8) (len : ℕ) : State → Option ℕ → Prop where
  | finished {ifDesc : Option ℕ} : Ends buf len (.finished ifDesc) ifDesc
  | step {s : State} {ifDesc : Option ℕ} :
      Ends buf len (step buf len s).2 ifDesc → Ends buf len s ifDesc

theorem Ends.finishes {n : ℕ} {ifDesc : Option ℕ} (h : Ends buf len s ifDesc)
    (hs : (run buf len n).2 = s) : ∃ k, (run buf len k).2 = .finished ifDesc := by
  induction h generalizing n with
  | finished => exact ⟨n, hs⟩
  | step _ ih => exact ih (n := n + 1) (by rw [run, hs])

theorem ends_of_run {k : ℕ} {ifDesc : Option ℕ} (h : (run buf len k).2 = .finished ifDesc) :
    Ends buf len (run buf len 0).2 ifDesc := by
  have hback : ∀ j ≤ k, Ends buf len (run buf len (k - j)).2 ifDesc := by
    intro j
    induction j with
    | zero =>
      intro _
      rw [Nat.sub_zero, h]
      exact .finished
    | succ j ih =>
      intro hj
      apply Ends.step
      have hprev := ih (by omega)
      rwa [show k - j = k - (j + 1) + 1 by omega, run] at hprev
  have hstart := hback k (Nat.le_refl k)
  rwa [Nat.sub_self] at hstart

/-! ## The reader -/

theorem next_eq (buf : ℕ → BitVec 8) (len p : ℕ) :
    next buf len p = (p + (buf p).toNat, decide (p + (buf p).toNat < len)) := by
  unfold next
  simp only [Int.ofNat_lt]

/-- What is done with the interface at a place. -/
def afterInterface (buf : ℕ → BitVec 8) (q : ℕ) : State :=
  if (classDriverPacketSize buf q).isSome then .endpoints q q 0 else .search q

/-- The state behind a search. -/
def afterSearch (buf : ℕ → BitVec 8) : Option ℕ → State
  | none => .finished none
  | some q => afterInterface buf q

theorem searchStep_interface {p : ℕ} (hinside : p + (buf p).toNat < len)
    (htype : buf (p + (buf p).toNat + 1) = descriptor.kInterface) :
    (searchStep buf len p).2 = afterInterface buf (p + (buf p).toNat) := by
  unfold searchStep afterInterface
  simp only [if_pos hinside, if_pos htype]
  split
  · rfl
  · rfl

theorem searchStep_other {p : ℕ} (hinside : p + (buf p).toNat < len)
    (htype : buf (p + (buf p).toNat + 1) ≠ descriptor.kInterface) :
    (searchStep buf len p).2 = .search (p + (buf p).toNat) := by
  unfold searchStep
  simp only [if_pos hinside, if_neg htype]

/-- The search for the next interface is a number of steps. -/
theorem ends_of_nextOfType {fuel p : ℕ} {found : Option ℕ} {ifDesc : Option ℕ}
    (h : nextOfType buf len descriptor.kInterface fuel p = some found)
    (hends : Ends buf len (afterSearch buf found) ifDesc) : Ends buf len (.search p) ifDesc := by
  induction fuel generalizing p with
  | zero => exact absurd h (by simp [nextOfType])
  | succ fuel ih =>
    unfold nextOfType at h
    rw [next_eq] at h
    simp only [decide_eq_true_eq] at h
    apply Ends.step
    show Ends buf len (searchStep buf len p).2 ifDesc
    split at h
    · next hinside =>
      split at h
      · next htype =>
        rw [searchStep_interface hinside htype]
        rw [← Option.some.inj h] at hends
        exact hends
      · next htype =>
        rw [searchStep_other hinside htype]
        exact ih h
    · next hend =>
      rw [← Option.some.inj h] at hends
      rw [searchStep_end (Nat.le_of_not_lt hend)]
      exact hends

/-! ## From the loops to the steps -/

theorem ends_of_readEndpoints {driver ifDesc fuel p : ℕ}
    (h : Device.readEndpoints buf len driver (numEndpoints buf ifDesc) fuel p d = some d') :
    Ends buf len (.endpoints ifDesc p d.numEpConfigs) (some ifDesc) := by
  -- one round of the loop is one step of the parser
  induction fuel generalizing p d with
  | zero => exact absurd h (by simp [Device.readEndpoints])
  | succ fuel ih =>
    unfold Device.readEndpoints at h
    rw [next_eq] at h
    simp only [decide_eq_true_eq] at h
    apply Ends.step
    show Ends buf len (endpointsStep buf len ifDesc p d.numEpConfigs).2 _
    unfold endpointsStep
    split at h
    · next hwanted =>
      rw [if_pos hwanted]
      split at h
      · next hinside =>
        simp only [if_pos hinside]
        split at h
        · next htype =>
          rw [if_pos htype]
          split at h
          · next hroom =>
            rw [if_pos hroom]
            exact ih h
          · exact absurd h (by simp)
        · next htype =>
          rw [if_neg htype]
          split
          · exact ih h
          · exact ih h
      · exact absurd h (by simp)
    · next hwanted =>
      rw [if_neg hwanted]
      exact .finished

theorem ends_of_readInterfaces {fuel p : ℕ} {driver : Option ℕ}
    (h : Device.readInterfaces m buf len fuel p d = some (driver, d')) :
    ∃ ifDesc, Ends buf len (.search p) ifDesc := by
  -- a round without a driver goes on searching, and one with a driver enters the inner loop
  induction fuel generalizing p d with
  | zero => exact absurd h (by simp [Device.readInterfaces])
  | succ fuel ih =>
    unfold Device.readInterfaces at h
    simp only [Option.bind_eq_bind, Option.bind_eq_some_iff] at h
    obtain ⟨found, hfound, h⟩ := h
    split at h
    · exact ⟨none, ends_of_nextOfType hfound .finished⟩
    · next q =>
      simp only [Option.bind_eq_some_iff] at h
      obtain ⟨⟨made, d₁⟩, hnew, h⟩ := h
      unfold Device.newClassDriver at hnew
      split at hnew
      · next hnone =>
        obtain ⟨rfl, rfl⟩ := Prod.mk.inj (Option.some.inj hnew)
        obtain ⟨ifDesc, hends⟩ := ih h
        refine ⟨ifDesc, ends_of_nextOfType hfound ?_⟩
        show Ends buf len (afterInterface buf q) ifDesc
        rw [afterInterface, hnone]
        exact hends
      · next size hsome =>
        simp only [Option.bind_eq_bind, Option.bind_eq_some_iff, Option.some.injEq,
          Prod.mk.injEq] at hnew
        obtain ⟨address, -, rfl, rfl⟩ := hnew
        simp only [Option.bind_eq_some_iff] at h
        obtain ⟨d₂, hread, -⟩ := h
        refine ⟨some q, ends_of_nextOfType hfound ?_⟩
        show Ends buf len (afterInterface buf q) (some q)
        rw [afterInterface, hsome]
        exact ends_of_readEndpoints hread

/-! ## From the steps to the loops -/

theorem not_ends_undefined {ifDesc : Option ℕ} : ¬ Ends buf len .undefined ifDesc := by
  intro h
  generalize hs : State.undefined = s at h
  induction h with
  | finished => exact absurd hs (by simp)
  | step _ ih =>
    subst hs
    exact ih rfl

/-- With enough rounds the loop over the endpoints returns. -/
theorem readEndpoints_of_ends {r : Option ℕ} (h : Ends buf len s r) :
    ∀ {ifDesc p c : ℕ}, s = .endpoints ifDesc p c → ∃ f₀, ∀ driver fuel d, f₀ ≤ fuel →
      d.numEpConfigs = c →
        (Device.readEndpoints buf len driver (numEndpoints buf ifDesc) fuel p d).isSome = true := by
  induction h with
  | finished =>
    intro ifDesc p c hs
    exact absurd hs (by simp)
  | @step s r hends ih =>
    intro ifDesc p c hs
    subst hs
    have hstep : (step buf len (.endpoints ifDesc p c)).2 =
        (endpointsStep buf len ifDesc p c).2 := rfl
    rw [hstep] at hends
    unfold endpointsStep at hends hstep
    -- each way a step goes on is a round of the loop, and the rest of the rounds are those it needs
    by_cases hwanted : c < numEndpoints buf ifDesc
    · rw [if_pos hwanted] at hends hstep
      by_cases hinside : p + (buf p).toNat < len
      · simp only [if_pos hinside] at hends hstep
        by_cases htype : buf (p + (buf p).toNat + 1) = descriptor.kEndpoint
        · simp only [if_pos htype] at hends hstep
          by_cases hroom : c < 16
          · rw [if_pos hroom] at hstep
            obtain ⟨f₀, hf₀⟩ := ih hstep
            refine ⟨f₀ + 1, fun driver fuel d hfuel hd => ?_⟩
            obtain ⟨fuel, rfl⟩ := Nat.exists_eq_add_of_le' (Nat.le_of_add_left_le hfuel)
            subst hd
            unfold Device.readEndpoints
            rw [next_eq, if_pos hwanted]
            simp only [decide_eq_true_eq, if_pos hinside, if_pos htype, if_pos hroom]
            exact hf₀ driver fuel _ (by omega) rfl
          · rw [if_neg hroom] at hends
            exact absurd hends not_ends_undefined
        · rw [if_neg htype] at hstep
          have hother : (step buf len (.endpoints ifDesc p c)).2 =
              .endpoints ifDesc (p + (buf p).toNat) c := by
            rw [hstep]
            split
            · rfl
            · rfl
          obtain ⟨f₀, hf₀⟩ := ih hother
          refine ⟨f₀ + 1, fun driver fuel d hfuel hd => ?_⟩
          obtain ⟨fuel, rfl⟩ := Nat.exists_eq_add_of_le' (Nat.le_of_add_left_le hfuel)
          subst hd
          unfold Device.readEndpoints
          rw [next_eq, if_pos hwanted]
          simp only [decide_eq_true_eq, if_pos hinside, if_neg htype]
          exact hf₀ driver fuel _ (by omega) rfl
      · simp only [if_neg hinside] at hends
        exact absurd hends not_ends_undefined
    · refine ⟨1, fun driver fuel d hfuel hd => ?_⟩
      obtain ⟨fuel, rfl⟩ := Nat.exists_eq_add_of_le' hfuel
      subst hd
      unfold Device.readEndpoints
      rw [if_neg hwanted]
      rfl

/-- One round of `readInterfaces`, whose search has its own bound. -/
def interfacesFrom (m : Machine) (buf : ℕ → BitVec 8) (len : ℤ) (g fuel p : ℕ) (d : Device) :
    Option (Option ℕ × Device) := do
  match ← nextOfType buf len descriptor.kInterface g p with
  | none => some (none, d)
  | some p =>
    match ← d.newClassDriver m buf p with
    | (none, d) => Device.readInterfaces m buf len fuel p d
    | (some driver, d) =>
      let d ← Device.readEndpoints buf len driver (buf (p + 4)).toNat m.fuel p
        { d with numEpConfigs := 0 }
      some (some driver, d)

theorem readInterfaces_succ (fuel p : ℕ) :
    Device.readInterfaces m buf len (fuel + 1) p d =
      interfacesFrom m buf len m.fuel fuel p d := rfl

theorem nextOfType_succ (g p : ℕ) :
    nextOfType buf len descriptor.kInterface (g + 1) p =
      if p + (buf p).toNat < len then
        if buf (p + (buf p).toNat + 1) = descriptor.kInterface then some (some (p + (buf p).toNat))
        else nextOfType buf len descriptor.kInterface g (p + (buf p).toNat)
      else some none := by
  rw [nextOfType, next_eq]
  simp only [decide_eq_true_eq]

/-- With enough rounds the loop over the interfaces returns. -/
theorem interfacesFrom_of_ends {r : Option ℕ} (h : Ends buf len s r) :
    ∀ {p : ℕ}, s = .search p → ∃ f₀, ∀ m g fuel d, m.newDriver.isSome = true → f₀ ≤ m.fuel →
      f₀ ≤ g → f₀ ≤ fuel → (interfacesFrom m buf len g fuel p d).isSome = true := by
  induction h with
  | finished =>
    intro p hs
    exact absurd hs (by simp)
  | @step s r hends ih =>
    intro p hs
    subst hs
    have hstep : (step buf len (.search p)).2 = (searchStep buf len p).2 := rfl
    -- the search stops at the end, or at an interface, with or without a driver
    by_cases hinside : p + (buf p).toNat < len
    · by_cases htype : buf (p + (buf p).toNat + 1) = descriptor.kInterface
      · rw [searchStep_interface hinside htype, afterInterface] at hstep
        cases hsize : classDriverPacketSize buf (p + (buf p).toNat) with
        | none =>
          simp only [hsize] at hstep
          obtain ⟨f₀, hf₀⟩ := ih hstep
          refine ⟨f₀ + 1, fun m g fuel d hdriver hm hg hfuel => ?_⟩
          obtain ⟨g, rfl⟩ := Nat.exists_eq_add_of_le' (Nat.le_of_add_left_le hg)
          obtain ⟨fuel, rfl⟩ := Nat.exists_eq_add_of_le' (Nat.le_of_add_left_le hfuel)
          unfold interfacesFrom
          rw [nextOfType_succ, if_pos hinside, if_pos htype]
          simp only [Device.newClassDriver, hsize, Option.bind_eq_bind, Option.bind_some]
          rw [readInterfaces_succ]
          exact hf₀ m _ fuel d hdriver (by omega) (by omega) (by omega)
        | some size =>
          simp only [hsize] at hstep
          rw [hstep] at hends
          obtain ⟨f₀, hf₀⟩ := readEndpoints_of_ends hends rfl
          refine ⟨f₀ + 1, fun m g fuel d hdriver hm hg hfuel => ?_⟩
          obtain ⟨g, rfl⟩ := Nat.exists_eq_add_of_le' (Nat.le_of_add_left_le hg)
          obtain ⟨address, haddress⟩ := Option.isSome_iff_exists.mp hdriver
          unfold interfacesFrom
          rw [nextOfType_succ, if_pos hinside, if_pos htype]
          simp only [Device.newClassDriver, hsize, haddress, Option.bind_eq_bind,
            Option.bind_some]
          obtain ⟨d', hd'⟩ := Option.isSome_iff_exists.mp
            (hf₀ d.drivers.length m.fuel
              { d with
                drivers := d.drivers ++ [.new address (buf (p + (buf p).toNat + 2)) size]
                numEpConfigs := 0 } (by omega) rfl)
          rw [numEndpoints] at hd'
          rw [hd']
          rfl
      · rw [searchStep_other hinside htype] at hstep
        obtain ⟨f₀, hf₀⟩ := ih hstep
        refine ⟨f₀ + 1, fun m g fuel d hdriver hm hg hfuel => ?_⟩
        obtain ⟨g, rfl⟩ := Nat.exists_eq_add_of_le' (Nat.le_of_add_left_le hg)
        have hrest := hf₀ m g fuel d hdriver (by omega) (by omega) (by omega)
        unfold interfacesFrom at hrest ⊢
        rw [nextOfType_succ, if_pos hinside, if_neg htype]
        exact hrest
    · refine ⟨1, fun m g fuel d _ _ hg _ => ?_⟩
      obtain ⟨g, rfl⟩ := Nat.exists_eq_add_of_le' hg
      unfold interfacesFrom
      rw [nextOfType_succ, if_neg hinside]
      rfl

/-- The loops of `InitializePhase2` return for some bound exactly when the parser ends. -/
theorem readInterfaces_returns_iff (hconf : buf 1 = descriptor.kConfiguration)
    (hdriver : m.newDriver.isSome = true) :
    (∃ fuel, (Device.readInterfaces { m with fuel := fuel } buf len fuel 0 d).isSome = true) ↔
      ∃ k, Finished buf len k := by
  have hstart : (run buf len 0).2 = .search 0 := if_pos hconf
  constructor
  · rintro ⟨fuel, hsome⟩
    obtain ⟨⟨driver, d'⟩, hread⟩ := Option.isSome_iff_exists.mp hsome
    obtain ⟨ifDesc, hends⟩ := ends_of_readInterfaces hread
    obtain ⟨k, hk⟩ := hends.finishes hstart
    exact ⟨k, ifDesc, hk⟩
  · rintro ⟨k, ifDesc, hk⟩
    have hends := ends_of_run hk
    obtain ⟨f₀, hf₀⟩ := interfacesFrom_of_ends hends hstart
    refine ⟨f₀ + 1, ?_⟩
    rw [readInterfaces_succ]
    exact hf₀ _ _ f₀ d hdriver (by simp) (by simp) (Nat.le_refl f₀)

end ConfigurationParser
end TommyOS.Usb
