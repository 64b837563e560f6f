import TommyOS.Usb.ConfigurationParser

/-!
# When the parser of a configuration ends

Every descriptor with a length brings the reader nearer to the end of the data, so what can keep
the parser busy is a descriptor of length zero. The loop over the endpoints has no other way out
than to find all of them: where the data ends before, a null pointer is read.
-/

namespace TommyOS.Usb
namespace ConfigurationParser

variable {buf : ℕ → BitVec 8} {len k p e : ℕ}

/-! ## Looking for the interface -/

/-- From a descriptor of no length on, the search goes on for ever. -/
theorem passed_of_stuck (hconf : buf 1 = descriptor.kConfiguration) (hlen : 0 < len)
    (h : Passed buf len k) (hstuck : buf (place buf 0 k) = 0#8) (j : ℕ) : Passed buf len j := by
  have hhere : place buf 0 k < len ∧ ¬ HasDriver buf (place buf 0 k) := by
    rcases Nat.eq_zero_or_pos k with hzero | hpos
    · subst hzero
      refine ⟨hlen, fun hdriver => ?_⟩
      have htype : buf 1 = descriptor.kInterface := hdriver.1
      rw [hconf] at htype
      exact absurd htype (by decide)
    · exact h k hpos (Nat.le_refl k)
  intro i hi _
  by_cases hik : i ≤ k
  · exact h i hi hik
  · have hplace : place buf 0 i = place buf 0 k := by
      rw [show i = k + (i - k) by omega]
      exact place_stuck hstuck (i - k)
    rw [hplace]
    exact hhere

theorem le_place (hmoves : ∀ k, Passed buf len k → buf (place buf 0 k) ≠ 0#8)
    (h : Passed buf len k) : k ≤ place buf 0 k := by
  induction k with
  | zero => exact Nat.zero_le _
  | succ k ih =>
    have hbefore := h.mono (Nat.le_succ k)
    have hle := ih hbefore
    have hlt := lt_place_succ (hmoves k hbefore)
    omega

/-- Where no descriptor is of length zero, the search ends. -/
theorem exists_last_passed (hmoves : ∀ k, Passed buf len k → buf (place buf 0 k) ≠ 0#8) :
    ∃ k, Passed buf len k ∧ ¬ Passed buf len (k + 1) := by
  by_contra hno
  push Not at hno
  have hall : ∀ k, Passed buf len k := by
    intro k
    induction k with
    | zero => exact passed_zero
    | succ k ih => exact hno k ih
  have hinside := (hall (len + 1) (len + 1) (Nat.succ_pos len) (Nat.le_refl _)).1
  have hle := le_place hmoves (hall (len + 1))
  omega

/-! ## Looking for the endpoints -/

theorem endpointCount_succ (buf : ℕ → BitVec 8) (p e : ℕ) :
    endpointCount buf p (e + 1) = endpointCount buf p e +
      if buf (place buf p (e + 1) + 1) = descriptor.kEndpoint then 1 else 0 := rfl

/-- A descriptor of no length that is no endpoint is the last one that is found. -/
theorem endpointCount_stuck (hstuck : buf (place buf p k) = 0#8)
    (htype : buf (place buf p k + 1) ≠ descriptor.kEndpoint) (j : ℕ) :
    endpointCount buf p (k + j) = endpointCount buf p k := by
  induction j with
  | zero => rfl
  | succ j ih =>
    rw [← Nat.add_assoc, endpointCount_succ, ih, Nat.add_assoc k j 1, place_stuck hstuck,
      if_neg htype]
    rfl

/-- Each round moves the reader or finds an endpoint. -/
theorem le_place_add_count
    (hfound : ∃ e', e ≤ e' ∧ ∀ i < e, endpointCount buf p i < endpointCount buf p e') :
    p + e ≤ place buf p e + endpointCount buf p e := by
  induction e with
  | zero => exact Nat.le_add_right _ _
  | succ e ih =>
    obtain ⟨e', hle, hlt⟩ := hfound
    have hprev := ih ⟨e', by omega, fun i hi => hlt i (by omega)⟩
    have hcount : endpointCount buf p e ≤ endpointCount buf p (e + 1) :=
      endpointCount_mono buf p (Nat.le_succ e)
    by_cases hstuck : buf (place buf p e) = 0#8
    · have hsame : place buf p (e + 1) = place buf p e := place_stuck hstuck 1
      by_cases htype : buf (place buf p e + 1) = descriptor.kEndpoint
      · rw [endpointCount_succ, hsame, if_pos htype]
        omega
      · have hlast := endpointCount_stuck hstuck htype (e' - e)
        rw [show e + (e' - e) = e' by omega] at hlast
        have := hlt e (Nat.lt_succ_self e)
        omega
    · have := lt_place_succ hstuck
      omega

theorem endpointCount_succ_le (buf : ℕ → BitVec 8) (p e : ℕ) :
    endpointCount buf p (e + 1) ≤ endpointCount buf p e + 1 := by
  rw [endpointCount_succ]
  split <;> omega

/-- The endpoints that were found fit the array. -/
theorem endpointCount_le_of_goes (h : ∀ e' < e, Goes buf len p e') :
    endpointCount buf p e ≤ 16 := by
  induction e with
  | zero => exact Nat.zero_le 16
  | succ e ih =>
    have hle := ih fun e' he' => h e' (by omega)
    rw [endpointCount_succ]
    split
    · next htype => exact (h e (Nat.lt_succ_self e)).room htype
    · exact hle

theorem place_lt_of_goes (hp : p < len) (h : ∀ e' < e, Goes buf len p e') :
    place buf p e < len := by
  cases e with
  | zero => exact hp
  | succ e => exact (h e (Nat.lt_succ_self e)).inside

/-- The endpoints of the interface at `p` are all in the data, and fit the array. -/
def EndpointsInside (buf : ℕ → BitVec 8) (len p : ℕ) : Prop :=
  numEndpoints buf p ≤ 16 ∧
    ∃ e, place buf p e < len ∧ numEndpoints buf p ≤ endpointCount buf p e

/-- The loop finds them then, in as many rounds as there are bytes and endpoints. -/
theorem EndpointsInside.finds (h : EndpointsInside buf len p) :
    ∃ e, (∀ e' < e, Goes buf len p e') ∧ numEndpoints buf p ≤ endpointCount buf p e ∧
      p + e < len + 16 := by
  obtain ⟨hfit, hexists⟩ := h
  have hfind : ∃ e, numEndpoints buf p ≤ endpointCount buf p e := by
    obtain ⟨e, -, hcount⟩ := hexists
    exact ⟨e, hcount⟩
  obtain ⟨e₀, hinside₀, hcount₀⟩ := hexists
  -- the first round behind which there are enough
  set e := Nat.find hfind with he
  have hcount : numEndpoints buf p ≤ endpointCount buf p e := Nat.find_spec hfind
  have hbefore : ∀ e' < e, endpointCount buf p e' < numEndpoints buf p :=
    fun e' he' => Nat.lt_of_not_le (Nat.find_min hfind he')
  have hinside : place buf p e < len :=
    lt_of_le_of_lt (place_mono buf p (Nat.find_le hcount₀)) hinside₀
  have hexact : endpointCount buf p e ≤ 16 := by
    rcases Nat.eq_zero_or_pos e with hzero | hpos
    · rw [hzero]
      exact Nat.zero_le 16
    · have hlast := hbefore (e - 1) (by omega)
      have hstep := endpointCount_succ_le buf p (e - 1)
      rw [Nat.sub_add_cancel hpos] at hstep
      omega
  have hmove := le_place_add_count (e := e)
    ⟨e, Nat.le_refl e, fun i hi => lt_of_lt_of_le (hbefore i hi) hcount⟩
  refine ⟨e, fun e' he' => ⟨hbefore e' he', ?_, fun _ => ?_⟩, hcount, by omega⟩
  · exact lt_of_le_of_lt (place_mono buf p he') hinside
  · have := hbefore e' he'
    omega

/-! ## Termination -/

/-- A parser that ends has found an end to its search, and the endpoints it looked for. -/
theorem Finished.endpointsInside (hconf : buf 1 = descriptor.kConfiguration) {n : ℕ}
    (h : Finished buf len n) (hfirst : FirstDriver buf len k p) : EndpointsInside buf len p := by
  classical
  obtain ⟨ifDesc, hfinished⟩ := h
  have hlater (e : ℕ) : (run buf len (k + 1 + e + n)).2 = .finished ifDesc := by
    rw [Nat.add_comm _ n]
    exact run_of_finished hfinished _
  by_cases hall : ∀ e, Goes buf len p e
  · -- the loop would go on for ever
    have hstate := run_endpoints hconf hfirst (e := 0 + n) fun e' _ => hall e'
    rw [← Nat.add_assoc, hlater 0] at hstate
    exact absurd hstate (by simp)
  · rw [not_forall] at hall
    -- the first round that does not go on is the last one, or undefined
    set e := Nat.find hall with he
    have hgoes : ∀ e' < e, Goes buf len p e' := fun e' he' => not_not.mp (Nat.find_min hall he')
    have hstop : ¬ Goes buf len p e := Nat.find_spec hall
    have hstate := run_endpoints hconf hfirst hgoes
    have hcount := endpointCount_le_of_goes hgoes
    by_cases hwanted : endpointCount buf p e < numEndpoints buf p
    · have hundefined : (run buf len (k + 1 + e + 1)).2 = .undefined := by
        rw [run, hstate]
        exact endpointsStep_undefined hwanted hstop
      have hstays := run_of_undefined hundefined n
      rw [Nat.add_assoc (k + 1) e 1, hlater (e + 1)] at hstays
      exact absurd hstays (by simp)
    · exact ⟨by omega, e, place_lt_of_goes hfirst.inside hgoes, by omega⟩

theorem Finished.moves (hconf : buf 1 = descriptor.kConfiguration) {n : ℕ}
    (h : Finished buf len n) (hlen : 0 < len) (hpassed : Passed buf len k) :
    buf (place buf 0 k) ≠ 0#8 := by
  intro hstuck
  obtain ⟨ifDesc, hfinished⟩ := h
  rw [run_passed hconf (passed_of_stuck hconf hlen hpassed hstuck n)] at hfinished
  exact absurd hfinished (by simp)

/-- The loops of `InitializePhase2` end exactly when no descriptor up to the first interface with
a driver, or in all of the data when there is none, is of length zero, and the endpoints of that
interface are at most 16 and all in the data. They end within `len + 16` steps then. The parser of
`Device` takes these steps by `readInterfaces_returns_iff`. -/
theorem initializePhase2_finishes_iff (hconf : buf 1 = descriptor.kConfiguration) :
    (∃ k, k ≤ len + 16 ∧ Finished buf len k) ↔
      (0 < len → ∀ k, Passed buf len k → buf (place buf 0 k) ≠ 0#8) ∧
        ∀ k p, FirstDriver buf len k p → numEndpoints buf p ≤ 16 ∧
          ∃ e, place buf p e < len ∧ numEndpoints buf p ≤ endpointCount buf p e := by
  constructor
  · rintro ⟨n, -, hfinished⟩
    exact ⟨fun hlen k hpassed => hfinished.moves hconf hlen hpassed,
      fun k p hfirst => hfinished.endpointsInside hconf hfirst⟩
  · rintro ⟨hmoves, hendpoints⟩
    rcases Nat.eq_zero_or_pos len with hzero | hlen
    · -- an empty answer ends the search at once
      refine ⟨1, by omega, none, ?_⟩
      rw [run, run_passed hconf passed_zero]
      exact congrArg Prod.snd (searchStep_end (by omega))
    · obtain ⟨k, hpassed, hlast⟩ := exists_last_passed (hmoves hlen)
      have hk := le_place (hmoves hlen) hpassed
      rcases hpassed.cases with hend | hfirst | hpassed'
      · refine ⟨k + 1, ?_, none, ?_⟩
        · rcases Nat.eq_zero_or_pos k with hzero | hpos
          · omega
          · have := (hpassed k hpos (Nat.le_refl k)).1
            omega
        · rw [run, run_passed hconf hpassed]
          exact congrArg Prod.snd (searchStep_end hend)
      · have hmove := lt_place_succ (hmoves hlen k hpassed)
        -- the inner loop takes as many steps as there are descriptors to the last endpoint
        obtain ⟨e, hgoes, hcount, hbound⟩ := EndpointsInside.finds (hendpoints k _ hfirst)
        refine ⟨k + 1 + e + 1, by omega, some (place buf 0 (k + 1)), ?_⟩
        rw [run, run_endpoints hconf hfirst hgoes]
        exact congrArg Prod.snd (endpointsStep_end hcount)
      · exact absurd hpassed' hlast

/-- The answer of a keyboard: a configuration with one interface and one endpoint. -/
def keyboardAnswer (i : ℕ) : BitVec 8 :=
  [9#8, 2#8, 34#8, 0#8, 1#8, 1#8, 0#8, 160#8, 50#8,
    9#8, 4#8, 0#8, 0#8, 1#8, 3#8, 1#8, 1#8, 0#8,
    9#8, 33#8, 17#8, 1#8, 0#8, 1#8, 34#8, 63#8, 0#8,
    7#8, 5#8, 129#8, 3#8, 8#8, 0#8, 10#8].getD i 0#8

theorem initializePhase2_finishes_keyboard :
    numEndpoints keyboardAnswer 9 ≤ 16 ∧
      ∃ e, place keyboardAnswer 9 e < 34 ∧
        numEndpoints keyboardAnswer 9 ≤ endpointCount keyboardAnswer 9 e := by
  have hfinishes : ∃ k, k ≤ 34 + 16 ∧ Finished keyboardAnswer 34 k :=
    ⟨4, by decide, some 9, by decide⟩
  refine ((initializePhase2_finishes_iff (by decide)).mp hfinishes).2 0 9 ?_
  exact ⟨passed_zero, by decide, by decide, by decide⟩

/-- A configuration descriptor with the length zero is read again and again. -/
theorem zero_length_never_finishes :
    let buf : ℕ → BitVec 8 := fun i => if i = 1 then 2#8 else 0#8
    buf 1 = descriptor.kConfiguration ∧ ∀ k, ¬ Finished buf 9 k := by
  intro buf
  refine ⟨rfl, fun k ⟨ifDesc, hfinished⟩ => ?_⟩
  have hstate : ∀ k, (run buf 9 k).2 = .search 0 := by
    intro k
    induction k with
    | zero => rfl
    | succ k ih =>
      rw [run, ih]
      rfl
  rw [hstate k] at hfinished
  exact absurd hfinished (by simp)

end ConfigurationParser
end TommyOS.Usb
