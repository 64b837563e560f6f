import TommyOS.Usb.DeviceInitialization
import TommyOS.Usb.ParserTermination

/-!
# What the parser of a configuration reads and writes

The reader tests where a descriptor begins, and nothing tests where it ends. So the parser stays
in the data as long as each descriptor it comes to has in the data the members that are read,
and the endpoints it looks for are there and no more than the array holds.
-/

namespace TommyOS.Usb
namespace ConfigurationParser

variable {buf : ℕ → BitVec 8} {len k p q e : ℕ}

/-- What the search reads of the descriptor at `q` is in the data. -/
structure SearchWhole (buf : ℕ → BitVec 8) (len q : ℕ) : Prop where
  type : q + 1 < len
  interface : buf (q + 1) = descriptor.kInterface → q + 7 < len

/-- What the loop over the endpoints reads of the descriptor at `q` is in the data, and there is
room for one more endpoint when it is one. -/
structure EndpointWhole (buf : ℕ → BitVec 8) (len q numEpConfigs : ℕ) : Prop where
  type : q + 1 < len
  endpoint : buf (q + 1) = descriptor.kEndpoint → q + 6 < len ∧ numEpConfigs < 16
  hid : buf (q + 1) = descriptor.kHID → q + 6 + 3 * (buf (q + 5)).toNat ≤ len

/-- All accesses of a list are in bounds. -/
def AllInBounds (len : ℕ) (accesses : List Access) : Prop := ∀ a ∈ accesses, a.InBounds len

theorem allInBounds_append {xs ys : List Access} :
    AllInBounds len (xs ++ ys) ↔ AllInBounds len xs ∧ AllInBounds len ys :=
  List.forall_mem_append

theorem allInBounds_cons {a : Access} {xs : List Access} :
    AllInBounds len (a :: xs) ↔ a.InBounds len ∧ AllInBounds len xs :=
  List.forall_mem_cons

theorem allInBounds_nil : AllInBounds len [] := fun _ ha => absurd ha List.not_mem_nil

@[simp] theorem inBounds_read {i : ℕ} : (Access.read i).InBounds len ↔ i < len := Iff.rfl

/-! ## One step -/

theorem searchStep_inBounds_iff (hp : p < len) :
    AllInBounds len (searchStep buf len p).1 ↔
      (p + (buf p).toNat < len → SearchWhole buf len (p + (buf p).toNat)) := by
  unfold searchStep
  by_cases hinside : p + (buf p).toNat < len
  · rw [imp_iff_right hinside]
    simp only [if_pos hinside]
    by_cases htype : buf (p + (buf p).toNat + 1) = descriptor.kInterface
    · have hwhole : SearchWhole buf len (p + (buf p).toNat) ↔ p + (buf p).toNat + 7 < len :=
        ⟨fun h => h.interface htype, fun h => ⟨by omega, fun _ => h⟩⟩
      rw [if_pos htype, hwhole]
      split
      · simp only [allInBounds_append, allInBounds_cons, allInBounds_nil, inBounds_read, and_true]
        omega
      · simp only [allInBounds_append, allInBounds_cons, allInBounds_nil, inBounds_read, and_true]
        omega
    · rw [if_neg htype]
      simp only [allInBounds_cons, allInBounds_nil, inBounds_read]
      exact ⟨fun h => ⟨h.2.1, fun hno => absurd hno htype⟩, fun h => ⟨hp, h.type, trivial⟩⟩
  · simp only [if_neg hinside]
    exact iff_of_true (allInBounds_cons.mpr ⟨hp, allInBounds_nil⟩) fun h => absurd h hinside

/-- The number of an endpoint has four bits. -/
theorem number_makeEPConfig_lt (buf : ℕ → BitVec 8) (q : ℕ) :
    (makeEPConfig buf q).epId.number < 16 := by
  unfold makeEPConfig
  rw [EndpointID.number_ofNumber]
  exact BitVec.isLt _

theorem logHID_inBounds_iff :
    AllInBounds len (logHID buf q) ↔ q + 6 + 3 * (buf (q + 5)).toNat ≤ len ∧ q + 5 < len := by
  unfold logHID
  have hclasses : AllInBounds len ((List.range (3 * (buf (q + 5)).toNat)).map
      fun i => .read (q + 6 + i)) ↔ ∀ i < 3 * (buf (q + 5)).toNat, q + 6 + i < len := by
    unfold AllInBounds
    simp only [List.mem_map, List.mem_range, forall_exists_index, and_imp,
      forall_apply_eq_imp_iff₂, inBounds_read]
  rw [allInBounds_append, hclasses]
  simp only [allInBounds_cons, allInBounds_nil, inBounds_read, and_true]
  constructor
  · rintro ⟨⟨h2, h3, h5⟩, hall⟩
    refine ⟨?_, h5⟩
    by_cases hnone : (buf (q + 5)).toNat = 0
    · omega
    · have := hall (3 * (buf (q + 5)).toNat - 1) (by omega)
      omega
  · rintro ⟨hend, h5⟩
    exact ⟨⟨by omega, by omega, h5⟩, fun i hi => by omega⟩

theorem endpointsStep_inBounds_iff {ifDesc numEpConfigs : ℕ} (hp : p < len)
    (hifDesc : ifDesc + 4 < len) (hwanted : numEpConfigs < numEndpoints buf ifDesc) :
    AllInBounds len (endpointsStep buf len ifDesc p numEpConfigs).1 ↔
      EndpointWhole buf len (p + (buf p).toNat) numEpConfigs := by
  unfold endpointsStep
  rw [if_pos hwanted]
  -- a descriptor is read as an endpoint, as a HID descriptor or only for its type
  by_cases hinside : p + (buf p).toNat < len
  · simp only [if_pos hinside]
    have hnumber := number_makeEPConfig_lt buf (p + (buf p).toNat)
    by_cases htype : buf (p + (buf p).toNat + 1) = descriptor.kEndpoint
    · have hhid : buf (p + (buf p).toNat + 1) ≠ descriptor.kHID := by
        rw [htype]
        decide
      rw [if_pos htype]
      simp only [allInBounds_cons, inBounds_read]
      constructor
      · rintro ⟨-, -, h1, -, -, -, -, h6, hstore, -⟩
        exact ⟨h1, fun _ => ⟨h6, hstore⟩, fun h => absurd h hhid⟩
      · intro h
        obtain ⟨h6, hstore⟩ := h.endpoint htype
        exact ⟨hifDesc, hp, h.type, by omega, by omega, by omega, by omega, h6, hstore, hnumber,
          allInBounds_nil⟩
    · rw [if_neg htype]
      by_cases hhid : buf (p + (buf p).toNat + 1) = descriptor.kHID
      · rw [if_pos hhid]
        simp only [allInBounds_append, allInBounds_cons, inBounds_read, logHID_inBounds_iff]
        constructor
        · rintro ⟨⟨-, -, h1, -⟩, hend, -⟩
          exact ⟨h1, fun h => absurd h htype, fun _ => hend⟩
        · intro h
          have hend := h.hid hhid
          exact ⟨⟨hifDesc, hp, h.type, allInBounds_nil⟩, hend, by omega⟩
      · rw [if_neg hhid]
        simp only [allInBounds_cons, inBounds_read]
        exact ⟨fun h => ⟨h.2.2.1, fun h => absurd h htype, fun h => absurd h hhid⟩,
          fun h => ⟨hifDesc, hp, h.type, allInBounds_nil⟩⟩
  · simp only [if_neg hinside, allInBounds_cons]
    exact ⟨fun h => absurd h.2.2.1 id, fun h => absurd h.type (by omega)⟩

/-! ## The states of a run -/

/-- What the parser does after some steps. -/
theorem run_cases (hconf : buf 1 = descriptor.kConfiguration) (k : ℕ) :
    Passed buf len k ∨
      (∃ k₀ p e, FirstDriver buf len k₀ p ∧ k = k₀ + 1 + e ∧ ∀ e' < e, Goes buf len p e') ∨
      (run buf len k).2 = .undefined ∨ Finished buf len k := by
  induction k with
  | zero => exact .inl passed_zero
  | succ k ih =>
    -- still searching, inside the first interface with a driver, lost, or at the end
    rcases ih with hpassed | ⟨k₀, p, e, hfirst, rfl, hgoes⟩ | hundefined | ⟨ifDesc, hfinished⟩
    · rcases hpassed.cases with hend | hfirst | hpassed'
      · refine .inr (.inr (.inr ⟨none, ?_⟩))
        rw [run, run_passed hconf hpassed]
        exact congrArg Prod.snd (searchStep_end hend)
      · exact .inr (.inl ⟨k, _, 0, hfirst, rfl, fun e' he' => absurd he' (Nat.not_lt_zero e')⟩)
      · exact .inl hpassed'
    · have hstate := run_endpoints hconf hfirst hgoes
      by_cases hwanted : endpointCount buf p e < numEndpoints buf p
      · by_cases hnext : Goes buf len p e
        · refine .inr (.inl ⟨k₀, p, e + 1, hfirst, rfl, fun e' he' => ?_⟩)
          rcases Nat.lt_or_eq_of_le (Nat.le_of_lt_succ he') with hlt | heq
          · exact hgoes e' hlt
          · rw [heq]
            exact hnext
        · refine .inr (.inr (.inl ?_))
          rw [run, hstate]
          exact endpointsStep_undefined hwanted hnext
      · refine .inr (.inr (.inr ⟨some p, ?_⟩))
        rw [run, hstate]
        exact congrArg Prod.snd (endpointsStep_end (Nat.le_of_not_lt hwanted))
    · exact .inr (.inr (.inl (run_of_undefined hundefined 1)))
    · exact .inr (.inr (.inr ⟨ifDesc, run_of_finished hfinished 1⟩))

/-- Behind its end the parser reads nothing. -/
theorem inBounds_of_finished {n : ℕ} (h : Finished buf len n)
    (hbefore : ∀ k ≤ n, ∀ a ∈ (run buf len k).1, a.InBounds len) (k : ℕ) :
    ∀ a ∈ (run buf len k).1, a.InBounds len := by
  by_cases hk : k ≤ n
  · exact hbefore k hk
  · obtain ⟨ifDesc, hfinished⟩ := h
    obtain ⟨j, rfl⟩ := Nat.exists_eq_add_of_lt (Nat.lt_of_not_le hk)
    rw [run, run_of_finished hfinished j]
    exact allInBounds_nil

theorem place_lt_of_passed (hlen : 0 < len) (h : Passed buf len k) : place buf 0 k < len := by
  rcases Nat.eq_zero_or_pos k with hzero | hpos
  · subst hzero
    exact hlen
  · exact (h k hpos (Nat.le_refl k)).1

/-! ## All of a run -/

/-- The parser reads and writes in bounds exactly when the data has two bytes, every descriptor it
comes to has in the data the members it reads, and behind the first interface with a driver
there are at least as many endpoints as it announces, of which none is the seventeenth. It is the
parser of `readInterfaces_returns_iff`, with every access checked. -/
theorem initializePhase2_inBounds_iff (hconf : buf 1 = descriptor.kConfiguration) :
    (∀ k, ∀ a ∈ (run buf len k).1, a.InBounds len) ↔
      2 ≤ len ∧
        (∀ k, Passed buf len k → place buf 0 (k + 1) < len →
          SearchWhole buf len (place buf 0 (k + 1))) ∧
        ∀ k p, FirstDriver buf len k p → ∀ e, endpointCount buf p e < numEndpoints buf p →
          EndpointWhole buf len (place buf p (e + 1)) (endpointCount buf p e) := by
  constructor
  · intro hall
    have hlen : 2 ≤ len := hall 0 (.read 1) List.mem_cons_self
    have hsearch : ∀ k, Passed buf len k → place buf 0 (k + 1) < len →
        SearchWhole buf len (place buf 0 (k + 1)) := by
      intro k hpassed
      have hstep : AllInBounds len (run buf len (k + 1)).1 := hall (k + 1)
      rw [run, run_passed hconf hpassed] at hstep
      exact (searchStep_inBounds_iff (place_lt_of_passed (by omega) hpassed)).mp hstep
    refine ⟨hlen, hsearch, fun k p hfirst e => ?_⟩
    have hinterface : p + 7 < len := by
      have hwhole := hsearch k hfirst.passed (by rw [hfirst.place]; exact hfirst.inside)
      rw [hfirst.place] at hwhole
      exact hwhole.interface hfirst.hasDriver.1
    -- by induction, the rounds before were in bounds, so the parser comes here
    induction e using Nat.strong_induction_on with
    | _ e ih =>
      intro hwanted
      have hgoes : ∀ e' < e, Goes buf len p e' := by
        intro e' he'
        have hbefore := endpointCount_mono buf p (Nat.le_of_lt he')
        have hwhole := ih e' he' (lt_of_le_of_lt hbefore hwanted)
        exact ⟨lt_of_le_of_lt hbefore hwanted, Nat.lt_of_succ_lt hwhole.type,
          fun htype => (hwhole.endpoint htype).2⟩
      have hstep : AllInBounds len (run buf len (k + 1 + e + 1)).1 := hall _
      rw [run, run_endpoints hconf hfirst hgoes] at hstep
      exact (endpointsStep_inBounds_iff (place_lt_of_goes hfirst.inside hgoes) (by omega)
        hwanted).mp hstep
  · rintro ⟨hlen, hsearch, hendpoints⟩ k
    show AllInBounds len _
    cases k with
    | zero => exact allInBounds_cons.mpr ⟨hlen, allInBounds_nil⟩
    | succ k =>
      rw [run]
      rcases run_cases hconf k with hpassed | ⟨k₀, p, e, hfirst, rfl, hgoes⟩ | hundefined |
        ⟨ifDesc, hfinished⟩
      · rw [run_passed hconf hpassed]
        exact (searchStep_inBounds_iff (place_lt_of_passed (by omega) hpassed)).mpr
          (hsearch k hpassed)
      · have hwhole := hsearch k₀ hfirst.passed (by rw [hfirst.place]; exact hfirst.inside)
        rw [hfirst.place] at hwhole
        have hinterface := hwhole.interface hfirst.hasDriver.1
        rw [run_endpoints hconf hfirst hgoes]
        by_cases hwanted : endpointCount buf p e < numEndpoints buf p
        · exact (endpointsStep_inBounds_iff (place_lt_of_goes hfirst.inside hgoes) (by omega)
            hwanted).mpr (hendpoints k₀ p hfirst e hwanted)
        · show AllInBounds len (endpointsStep buf len p _ _).1
          rw [endpointsStep_end (Nat.le_of_not_lt hwanted)]
          simp only [allInBounds_cons, inBounds_read]
          exact ⟨by omega, by omega, allInBounds_nil⟩
      · rw [hundefined]
        exact allInBounds_nil
      · rw [hfinished]
        exact allInBounds_nil

theorem initializePhase2_inBounds_keyboard :
    EndpointWhole keyboardAnswer 34 (place keyboardAnswer 9 1) 0 := by
  have hall : ∀ k, ∀ a ∈ (run keyboardAnswer 34 k).1, a.InBounds 34 :=
    inBounds_of_finished ⟨some 9, by decide⟩ (n := 4) (by decide)
  exact ((initializePhase2_inBounds_iff (by decide)).mp hall).2.2 0 9
    ⟨passed_zero, by decide, by decide, by decide⟩ 0 (by decide)

/-- Where the answer of the keyboard ends behind its interface, the parser reads through the null
pointer of the reader. -/
theorem truncated_keyboard_readNull :
    keyboardAnswer 1 = descriptor.kConfiguration ∧
      ∃ a ∈ (run keyboardAnswer 18 2).1, ¬ a.InBounds 18 :=
  ⟨rfl, .readNull 1, by decide, id⟩

end ConfigurationParser
end TommyOS.Usb
