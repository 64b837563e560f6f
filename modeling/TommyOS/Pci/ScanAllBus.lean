import TommyOS.Pci.PciTheorems

/-!
# What `ScanAllBus` leaves in the table

Every reachable function when the scan succeeds, 32 reachable ones when it does not, and no
function twice unless the walk comes a second time to a bus it started from.
-/

namespace TommyOS.Pci

open DepthFirstWalk

variable {space : ConfigSpace}

/-- The functions listed in the table. -/
def DeviceTable.ids (t : DeviceTable) : List FunctionId := t.listed.map Device.id

/-! ## Exactly the reachable functions -/

theorem mem_survey_reachable {depth : ℕ} {f : FunctionId} (h : f ∈ met (survey space depth)) :
    Reachable space f := by
  obtain ⟨bus, hbus, hf⟩ := reached_of_mem_met h
  obtain ⟨rfl, hon⟩ := mem_functionsOn.mp hf
  exact ⟨reached_iff_reachableBus.mp hbus, hon⟩

theorem exists_mem_survey {f : FunctionId} (h : Reachable space f) :
    ∃ n, ∀ depth, n < depth → f ∈ met (survey space depth) := by
  obtain ⟨r, hr, hpath⟩ := reached_iff_reachableBus.mpr h.1
  obtain ⟨n, hn⟩ := exists_mem_met_walk hpath (mem_functionsOn.mpr ⟨rfl, h.2⟩)
  refine ⟨n, fun depth hdepth => ?_⟩
  unfold survey
  rw [met_flatMap, List.mem_flatMap]
  exact ⟨r, hr, hn depth hdepth⟩

variable (space) in
/-- The table after the scan, for every depth that suffices. -/
theorem scanAllBus_spec {depth : ℕ} (hdepth : 32 < depth) (t : DeviceTable) :
    ∃ err t', scanAllBus space 33 t = some (err, t') ∧
      t'.listed = ((met (survey space depth)).map (FunctionId.entry space)).take 32 ∧
      err = if (met (survey space depth)).length ≤ 32 then .kSuccess else .kFull := by
  have hrun := scanAllBus_eq space hdepth t
  rw [scanAllBus_of_depth hdepth] at hrun
  obtain ⟨hlisted, herr⟩ := addAll_spec ((met (survey space depth)).map (FunctionId.entry space))
    ⟨t.devices, 0, Nat.zero_le _⟩
  refine ⟨_, _, hrun, ?_, ?_⟩
  · rw [hlisted]
    rfl
  · rw [herr, List.length_map, Nat.zero_add]

theorem ids_map_entry (l : List FunctionId) :
    (l.map (FunctionId.entry space)).map Device.id = l := by
  rw [List.map_map]
  exact List.map_id l

/-- **The scan finds exactly the reachable functions.** It ends, with whatever is in the table
before; on success the table lists the reachable functions and no others; an error is `kFull`,
with 32 reachable functions listed; each entry has the class code and the header type of its
function. -/
theorem scanAllBus_lists_reachable (space : ConfigSpace) (t : DeviceTable) :
    ∃ err t', (∀ depth, 32 < depth → scanAllBus space depth t = some (err, t')) ∧
      (err = .kSuccess → ∀ f, f ∈ t'.ids ↔ Reachable space f) ∧
      (err.failed → err = .kFull ∧ t'.numDevice = 32 ∧ ∀ f ∈ t'.ids, Reachable space f) ∧
      (∀ d ∈ t'.listed, d.classCode = d.id.classCode space ∧ d.headerType = d.id.headerType space)
      := by
  have hthirty : 32 < 33 := Nat.lt_succ_self 32
  obtain ⟨err, t', hrun, hlisted, herr⟩ := scanAllBus_spec space hthirty t
  have hids : t'.ids = (met (survey space 33)).take 32 := by
    unfold DeviceTable.ids
    rw [hlisted, List.map_take, ids_map_entry]
  have hsound : ∀ f ∈ t'.ids, Reachable space f := by
    intro f hf
    rw [hids] at hf
    exact mem_survey_reachable (List.mem_of_mem_take hf)
  refine ⟨err, t', fun depth hdepth => ?_, fun hok f => ⟨hsound f, fun hf => ?_⟩, fun hfail => ?_,
    fun d hd => ?_⟩
  · rw [scanAllBus_of_depth hdepth, hrun]
  · -- a walk deep enough for `f` has no more functions than fit
    obtain ⟨n, hn⟩ := exists_mem_survey hf
    have hdepth : 32 < max 33 (n + 1) := Nat.lt_of_lt_of_le hthirty (Nat.le_max_left _ _)
    obtain ⟨err₂, t₂, hrun₂, hlisted₂, herr₂⟩ := scanAllBus_spec space hdepth t
    obtain ⟨rfl, rfl⟩ := Prod.mk.injEq .. ▸ Option.some.inj (hrun.symm.trans hrun₂)
    have hfits : (met (survey space (max 33 (n + 1)))).length ≤ 32 := by
      by_contra hlong
      rw [if_neg hlong] at herr₂
      rw [herr₂] at hok
      exact Error.noConfusion hok
    unfold DeviceTable.ids
    rw [hlisted₂, List.map_take, ids_map_entry, List.take_of_length_le hfits]
    exact hn _ (Nat.lt_of_lt_of_le (Nat.lt_succ_self n) (Nat.le_max_right _ _))
  -- the walk is cut at the 33rd function, when the table has 32
  · by_cases hfits : (met (survey space 33)).length ≤ 32
    · rw [herr, if_pos hfits] at hfail
      exact absurd hfail Bool.false_ne_true
    · refine ⟨by rw [herr, if_neg hfits], ?_, hsound⟩
      have hlength := congrArg List.length hlisted
      rw [length_listed, List.length_take, List.length_map] at hlength
      omega
  · rw [hlisted] at hd
    obtain ⟨f, _, rfl⟩ := List.mem_map.mp (List.mem_of_mem_take hd)
    exact ⟨rfl, rfl⟩

/-! ## No function twice -/

/-- Bridges numbered as a tree: no reachable bridge leads to bus 0, and no two of them lead to
the same bus. -/
structure NumberedAsTree (space : ConfigSpace) : Prop where
  nonzero : ∀ f, Reachable space f → f.isBridge space = true → f.secondaryBus space ≠ 0#8
  unique : ∀ f g, Reachable space f → Reachable space g → f.isBridge space = true →
    g.isBridge space = true → f.secondaryBus space = g.secondaryBus space → f = g

/-- A root bus with a function on it that a reachable bridge leads to as well. -/
def RootLedTo (space : ConfigSpace) (n : BitVec 8) : Prop :=
  RootBus space n ∧ (∃ f : FunctionId, f.bus = n ∧ f.OnBus space) ∧
    ∃ f, Reachable space f ∧ f.isBridge space = true ∧ f.secondaryBus space = n

/-- How often a depth-first walk from the roots enters a bus before it has met 32 functions. -/
def busEntries (space : ConfigSpace) (n : BitVec 8) : ℕ := entries 32 n (survey space 33)

theorem rootLedTo_iff {n : BitVec 8} :
    RootLedTo space n ↔
      LedToStart (functionsOn space) (FunctionId.nextBus space) (rootBuses space) n := by
  unfold RootLedTo LedToStart
  rw [mem_rootBuses]
  constructor
  · rintro ⟨hroot, ⟨f, hbus, hon⟩, g, hg, hbridge, hnext⟩
    exact ⟨hroot, List.ne_nil_of_mem (mem_functionsOn.mpr ⟨hbus, hon⟩), g.bus,
      reached_iff_reachableBus.mpr hg.1, g, mem_functionsOn.mpr ⟨rfl, hg.2⟩,
      nextBus_eq_some.mpr ⟨hbridge, hnext⟩⟩
  · rintro ⟨hroot, hne, p, hp, g, hg, hnext⟩
    obtain ⟨f, hf⟩ := List.exists_mem_of_ne_nil _ hne
    obtain ⟨hbridge, hbus⟩ := nextBus_eq_some.mp hnext
    obtain ⟨rfl, hon⟩ := mem_functionsOn.mp hg
    exact ⟨hroot, ⟨f, mem_functionsOn.mp hf⟩, g, ⟨reached_iff_reachableBus.mp hp, hon⟩, hbridge,
      hbus⟩

/-- **When no function is listed twice.** With the bridges numbered as a tree, the table after
`ScanAllBus` has no function twice if and only if the walk does not come a second time, before
32 functions are met, to a root bus that a bridge leads to. -/
theorem scanAllBus_nodup_iff (space : ConfigSpace) (htree : NumberedAsTree space)
    (t : DeviceTable) :
    ∃ err t', (∀ depth, 32 < depth → scanAllBus space depth t = some (err, t')) ∧
      (t'.ids.Nodup ↔ ∀ n, RootLedTo space n → busEntries space n ≤ 1) := by
  have hthirty : 32 < 33 := Nat.lt_succ_self 32
  obtain ⟨err, t', hrun, hlisted, -⟩ := scanAllBus_spec space hthirty t
  have hids : t'.ids = met (upTo 32 (survey space 33)) := by
    unfold DeviceTable.ids
    rw [hlisted, List.map_take, ids_map_entry, met_upTo]
  have hhome : ∀ bus, ∀ f ∈ functionsOn space bus, f.bus = bus :=
    fun bus f hf => (mem_functionsOn.mp hf).1
  -- two bridges with one secondary bus are the same in a tree
  have hunique : ∀ p q f g,
      Reached (functionsOn space) (FunctionId.nextBus space) (rootBuses space) p →
      Reached (functionsOn space) (FunctionId.nextBus space) (rootBuses space) q →
      f ∈ functionsOn space p → g ∈ functionsOn space q →
      f.nextBus space = g.nextBus space → f.nextBus space ≠ none → f = g := by
    intro p q f g hp hq hf hg hnext hsome
    obtain ⟨n, hfn⟩ := Option.ne_none_iff_exists'.mp hsome
    obtain ⟨hfbridge, hfbus⟩ := nextBus_eq_some.mp hfn
    obtain ⟨hgbridge, hgbus⟩ := nextBus_eq_some.mp (hnext.symm.trans hfn)
    obtain ⟨rfl, hfon⟩ := mem_functionsOn.mp hf
    obtain ⟨rfl, hgon⟩ := mem_functionsOn.mp hg
    exact htree.unique f g ⟨reached_iff_reachableBus.mp hp, hfon⟩
      ⟨reached_iff_reachableBus.mp hq, hgon⟩ hfbridge hgbridge (hfbus.trans hgbus.symm)
  refine ⟨err, t', fun depth hdepth => by rw [scanAllBus_of_depth hdepth, hrun], ?_⟩
  rw [hids]
  refine (nodup_met_iff hhome nodup_functionsOn nodup_rootBuses hunique 33 32).trans ?_
  constructor
  · intro h n hn
    exact h n (rootLedTo_iff.mp hn)
  · intro h n hn
    exact h n (rootLedTo_iff.mpr hn)

/-- A host bridge 00:00.0 with a second function, a bridge 00:01.0 to bus 1 and a device
01:00.0. -/
def twoFunctionHost : ConfigSpace := fun bus device function register =>
  if bus = 0#8 ∧ device = 0#5 ∧ function = 0#3 then
    if register = 2#6 then 0x06000000#32
    else if register = 3#6 then 0x00800000#32
    else 0x12378086#32
  else if bus = 0#8 ∧ device = 0#5 ∧ function = 1#3 then
    if register = 2#6 then 0x08800000#32
    else if register = 3#6 then 0x00800000#32
    else 0x12388086#32
  else if bus = 0#8 ∧ device = 1#5 ∧ function = 0#3 then
    if register = 2#6 then 0x06040000#32 else if register = 3#6 then 0x00010000#32
    else if register = 6#6 then 0x00010100#32 else 0x12398086#32
  else if bus = 1#8 ∧ device = 0#5 ∧ function = 0#3 then
    if register = 2#6 then 0x02000000#32
    else if register = 3#6 then 0x00000000#32
    else 0x100e8086#32
  else
    0xffffffff#32

theorem twoFunctionHost_bridge {f : FunctionId} (hf : f.InRange)
    (h : f.isBridge twoFunctionHost = true) : f = ⟨0#8, 1#8, 0#8⟩ := by
  obtain ⟨bus, device, function⟩ := f
  obtain ⟨hd, hfn⟩ := hf
  have hfields : bus = 0#8 ∧ device.setWidth 5 = 1#5 ∧ function.setWidth 3 = 0#3 := by
    revert h
    unfold FunctionId.isBridge FunctionId.classCode FunctionId.register twoFunctionHost
    simp only
    -- every other register has another class code
    split
    · exact fun h => absurd h (by decide)
    · split
      · exact fun h => absurd h (by decide)
      · split
        · next hbridge => exact fun _ => hbridge
        · split
          · exact fun h => absurd h (by decide)
          · exact fun h => absurd h (by decide)
  obtain ⟨rfl, hdevice, hfunction⟩ := hfields
  have hdevice' : device = 1#8 := by
    apply BitVec.eq_of_toNat_eq
    have := congrArg BitVec.toNat hdevice
    rw [BitVec.toNat_setWidth, Nat.mod_eq_of_lt hd] at this
    exact this
  have hfunction' : function = 0#8 := by
    apply BitVec.eq_of_toNat_eq
    have := congrArg BitVec.toNat hfunction
    rw [BitVec.toNat_setWidth, Nat.mod_eq_of_lt hfn] at this
    exact this
  rw [hdevice', hfunction']

theorem twoFunctionHost_numberedAsTree : NumberedAsTree twoFunctionHost := by
  constructor
  · intro f hf hbridge
    rw [twoFunctionHost_bridge hf.2.inRange hbridge]
    decide
  · intro f g hf hg hfbridge hgbridge _
    rw [twoFunctionHost_bridge hf.2.inRange hfbridge, twoFunctionHost_bridge hg.2.inRange hgbridge]

/-- The table as the program starts. -/
def zeroTable : DeviceTable where
  devices := fun _ => ⟨0#8, 0#8, 0#8, 0#8, ⟨0#8, 0#8, 0#8⟩⟩
  numDevice := 0
  numDevice_le := DeviceTable.zero_le

theorem scanAllBus_nodup_iff_twoFunctionHost :
    ∃ err t', (∀ depth, 32 < depth → scanAllBus twoFunctionHost depth zeroTable = some (err, t')) ∧
      (t'.ids.Nodup ↔ ∀ n, RootLedTo twoFunctionHost n → busEntries twoFunctionHost n ≤ 1) :=
  scanAllBus_nodup_iff twoFunctionHost twoFunctionHost_numberedAsTree zeroTable

/-- The device behind the bridge is listed twice: bus 1 is scanned through the bridge, and
again for the second function of 00:00. -/
theorem twoFunctionHost_listed_twice :
    NumberedAsTree twoFunctionHost ∧
      FunctionId.multiFunction twoFunctionHost ⟨0#8, 0#8, 0#8⟩ = true ∧
      ∃ t', (∀ depth, 32 < depth →
          scanAllBus twoFunctionHost depth zeroTable = some (.kSuccess, t')) ∧
        t'.ids = [⟨0#8, 0#8, 0#8⟩, ⟨0#8, 0#8, 1#8⟩, ⟨0#8, 1#8, 0#8⟩, ⟨1#8, 0#8, 0#8⟩,
          ⟨1#8, 0#8, 0#8⟩] ∧
        ¬ t'.ids.Nodup := by
  refine ⟨twoFunctionHost_numberedAsTree, by decide, ?_⟩
  have hrun : (scanAllBus twoFunctionHost 33 zeroTable).map (fun r => (r.1, r.2.ids)) =
      some (.kSuccess, [⟨0#8, 0#8, 0#8⟩, ⟨0#8, 0#8, 1#8⟩, ⟨0#8, 1#8, 0#8⟩, ⟨1#8, 0#8, 0#8⟩,
        ⟨1#8, 0#8, 0#8⟩]) := by
    decide +kernel
  obtain ⟨⟨err, t'⟩, hscan, hresult⟩ := Option.map_eq_some_iff.mp hrun
  obtain ⟨rfl, hids⟩ := Prod.mk.injEq .. ▸ hresult
  refine ⟨t', fun depth hdepth => by rw [scanAllBus_of_depth hdepth, hscan], hids, ?_⟩
  rw [hids]
  decide

end TommyOS.Pci
