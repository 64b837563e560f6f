import TommyOS.Pci.Topology

/-!
# The scan lists the reachable functions

Each read of the scan is the register it is meant to be. The scan of a bus adds the functions
of its depth-first walk to the table until the table is full, so what the table holds after
`ScanAllBus` is the first 32 functions of the walk from the roots.
-/

namespace TommyOS.Pci

open DepthFirstWalk

variable {space : ConfigSpace}

/-! ## Registers -/

/-- The upper bits of a small number. -/
theorem getElem_eq_false {x : BitVec 8} {n : ℕ} (h : x.toNat < 2 ^ n) (i : ℕ) (hi : i < 8)
    (hn : n ≤ i) : x[i] = false := by
  rw [BitVec.getElem_eq_testBit_toNat]
  exact Nat.testBit_lt_two_pow (Nat.lt_of_lt_of_le h (Nat.pow_le_pow_right (by decide) hn))

/-- The address ports select the register that was asked for. -/
theorem readData_makeAddress {device function : BitVec 8} (hd : device.toNat < 32)
    (hf : function.toNat < 8) (bus offset : BitVec 8) :
    readData space (makeAddress bus device function offset) =
      space bus (device.setWidth 5) (function.setWidth 3) (offset.extractLsb' 2 6) := by
  -- nothing of the device and function numbers spills into the field above
  have hdevice := getElem_eq_false (n := 5) hd
  have hfunction := getElem_eq_false (n := 3) hf
  have henable : (makeAddress bus device function offset).getLsbD 31 = true := by
    simp [makeAddress]
  have hbus : (makeAddress bus device function offset).extractLsb' 16 8 = bus := by
    apply BitVec.eq_of_getLsbD_eq
    intro i hi
    unfold makeAddress
    interval_cases i <;> simp [hdevice]
  have hdev : (makeAddress bus device function offset).extractLsb' 11 5 = device.setWidth 5 := by
    apply BitVec.eq_of_getLsbD_eq
    intro i hi
    unfold makeAddress
    interval_cases i <;> simp [hfunction]
  have hfun : (makeAddress bus device function offset).extractLsb' 8 3 = function.setWidth 3 := by
    apply BitVec.eq_of_getLsbD_eq
    intro i hi
    unfold makeAddress
    interval_cases i <;> simp
  have hreg : (makeAddress bus device function offset).extractLsb' 2 6 =
      offset.extractLsb' 2 6 := by
    apply BitVec.eq_of_getLsbD_eq
    intro i hi
    unfold makeAddress
    interval_cases i <;> simp
  unfold readData
  rw [if_pos henable, hbus, hdev, hfun, hreg]

/-- A function whose numbers are in range. -/
def FunctionId.InRange (f : FunctionId) : Prop := f.device.toNat < 32 ∧ f.function.toNat < 8

theorem FunctionId.OnBus.inRange {f : FunctionId} (h : f.OnBus space) : f.InRange := ⟨h.1, h.2.1⟩

theorem FunctionId.inRange_zero {device : BitVec 8} (hd : device.toNat < 32) (bus : BitVec 8) :
    FunctionId.InRange ⟨bus, device, 0#8⟩ :=
  ⟨hd, Nat.zero_lt_succ 7⟩

section Reads

variable {f : FunctionId} (hf : f.InRange)

include hf

/-- The address that `MakeAddress` makes selects the register. -/
theorem readData_register (offset : BitVec 8) :
    readData space (makeAddress f.bus f.device f.function offset) =
      f.register space (offset.extractLsb' 2 6) :=
  readData_makeAddress hf.1 hf.2 f.bus offset

/-- The check of the source for a function that is there. -/
theorem readVendorId_ne_iff :
    readVendorId space f.bus f.device f.function ≠ 0xffff#16 ↔ f.Present space := by
  have hread : readVendorId space f.bus f.device f.function =
      (f.register space 0).extractLsb' 0 16 := by
    unfold readVendorId
    rw [readData_register hf]
    apply BitVec.eq_of_getLsbD_eq
    intro i hi
    interval_cases i <;> simp
  rw [hread]
  rfl

/-- The check that skips an absent function. -/
theorem ite_readVendorId {α : Type*} (a b : α) :
    (if readVendorId space f.bus f.device f.function = 0xffff#16 then a else b) =
      if f.Present space then b else a := by
  by_cases hp : f.Present space
  · rw [if_pos hp, if_neg ((readVendorId_ne_iff hf).mpr hp)]
  · rw [if_neg hp, if_pos (not_not.mp fun h => hp ((readVendorId_ne_iff hf).mp h))]

theorem readHeaderType_eq :
    readHeaderType space f.bus f.device f.function = f.headerType space := by
  unfold readHeaderType
  rw [readData_register hf]
  apply BitVec.eq_of_getLsbD_eq
  intro i hi
  interval_cases i <;> simp [FunctionId.headerType]

theorem isSingleFunctionDevice_readHeaderType :
    isSingleFunctionDevice (readHeaderType space f.bus f.device f.function) =
      !f.multiFunction space := by
  rw [readHeaderType_eq hf]
  unfold isSingleFunctionDevice FunctionId.multiFunction
  generalize f.headerType space = x
  revert x
  decide

theorem readClassCode_eq :
    readClassCode space f.bus f.device f.function = f.classCode space := by
  have hbyte : ∀ (reg : BitVec 32) (s : ℕ), (reg >>> s &&& 0xff#32).setWidth 8 =
      reg.extractLsb' s 8 := by
    intro reg s
    apply BitVec.eq_of_getLsbD_eq
    intro i hi
    interval_cases i <;> simp
  unfold readClassCode
  rw [readData_register hf]
  simp only [hbyte]
  rfl

theorem secondaryBus_eq :
    ((readBusNumbers space f.bus f.device f.function >>> 8) &&& 0xff#32).setWidth 8 =
      f.secondaryBus space := by
  unfold readBusNumbers
  rw [readData_register hf]
  apply BitVec.eq_of_getLsbD_eq
  intro i hi
  interval_cases i <;> simp [FunctionId.secondaryBus]

end Reads

/-! ## Adding to the table -/

/-- Devices added in turn, until one does not fit. -/
def addAll : List Device → DeviceTable → Error × DeviceTable
  | [], t => (.kSuccess, t)
  | device :: devices, t =>
    let (err, t) := addDevice device t
    if err.failed then (err, t) else addAll devices t

theorem addAll_cons (device : Device) (devices : List Device) (t : DeviceTable) :
    addAll (device :: devices) t =
      if (addDevice device t).1.failed then addDevice device t
      else addAll devices (addDevice device t).2 := rfl

/-- Adding two lists is adding them one after the other. -/
theorem addAll_append (l₁ l₂ : List Device) :
    ∀ t, addAll (l₁ ++ l₂) t =
      if (addAll l₁ t).1.failed then addAll l₁ t else addAll l₂ (addAll l₁ t).2 := by
  induction l₁ with
  | nil => intro t; rfl
  | cons device l₁ ih =>
    intro t
    rw [List.cons_append, addAll_cons, addAll_cons]
    by_cases h : (addDevice device t).1.failed = true
    · rw [if_pos h, if_pos h, if_pos h]
    · rw [if_neg h, if_neg h, ih]

/-- A device is entered while the table has room. -/
theorem addDevice_of_lt {t : DeviceTable} (h : t.numDevice < 32) (device : Device) :
    addDevice device t =
      (.kSuccess, ⟨Function.update t.devices ⟨t.numDevice, h⟩ device, t.numDevice + 1, h⟩) := by
  unfold addDevice
  rw [dif_neg (Nat.ne_of_lt h)]

/-- A full table stays as it is. -/
theorem addDevice_of_full {t : DeviceTable} (h : t.numDevice = 32) (device : Device) :
    addDevice device t = (.kFull, t) := by
  unfold addDevice
  rw [dif_pos h]

theorem length_listed (t : DeviceTable) : t.listed.length = t.numDevice := List.length_ofFn

theorem getElem_listed (t : DeviceTable) (i : ℕ) (hi : i < t.listed.length) :
    t.listed[i] =
      t.devices ⟨i, Nat.lt_of_lt_of_le (length_listed t ▸ hi) t.numDevice_le⟩ :=
  List.getElem_ofFn _

/-- An added device is listed last. -/
theorem listed_addDevice {t : DeviceTable} (h : t.numDevice < 32) (device : Device) :
    (addDevice device t).2.listed = t.listed ++ [device] := by
  rw [addDevice_of_lt h]
  apply List.ext_getElem
  · rw [length_listed, List.length_append, length_listed, List.length_singleton]
  · intro i hi _
    have hi' : i < t.numDevice + 1 := by
      rw [length_listed] at hi
      exact hi
    rw [getElem_listed _ i hi]
    by_cases hlt : i < t.numDevice
    · have hlt' : i < t.listed.length := by rw [length_listed]; exact hlt
      rw [List.getElem_append_left hlt', getElem_listed t i hlt']
      apply Function.update_of_ne
      exact Fin.ne_of_val_ne (Nat.ne_of_lt hlt)
    · have heq : i = t.listed.length := by
        rw [length_listed]
        omega
      subst heq
      rw [List.getElem_concat_length rfl]
      have hindex : (⟨t.listed.length, by rw [length_listed]; exact h⟩ : Fin 32) =
          ⟨t.numDevice, h⟩ := Fin.ext (length_listed t)
      show Function.update t.devices ⟨t.numDevice, h⟩ device _ = device
      rw [hindex, Function.update_self]

theorem numDevice_addDevice {t : DeviceTable} (h : t.numDevice < 32) (device : Device) :
    (addDevice device t).2.numDevice = t.numDevice + 1 := by
  rw [addDevice_of_lt h]

theorem addAll_cons_of_lt {t : DeviceTable} (h : t.numDevice < 32) (device : Device)
    (devices : List Device) :
    addAll (device :: devices) t = addAll devices (addDevice device t).2 := by
  rw [addAll_cons, addDevice_of_lt h]
  rfl

/-- Behind a device that does not fit nothing is added. -/
theorem addAll_cons_of_full {t : DeviceTable} (h : t.numDevice = 32) (device : Device)
    (devices : List Device) : addAll (device :: devices) t = (.kFull, t) := by
  rw [addAll_cons, addDevice_of_full h]
  rfl

/-- The table does not shrink. -/
theorem numDevice_le_addAll (devices : List Device) :
    ∀ t, t.numDevice ≤ (addAll devices t).2.numDevice := by
  induction devices with
  | nil => intro t; exact Nat.le_refl _
  | cons device devices ih =>
    intro t
    by_cases hlt : t.numDevice < 32
    · have hnum := numDevice_addDevice hlt device
      have hrest := ih (addDevice device t).2
      rw [addAll_cons_of_lt hlt]
      omega
    · rw [addAll_cons_of_full (Nat.le_antisymm t.numDevice_le (Nat.le_of_not_lt hlt))]

/-- The table takes what fits behind what it lists, and reports what does not. -/
theorem addAll_spec (devices : List Device) :
    ∀ t, (addAll devices t).2.listed = (t.listed ++ devices).take 32 ∧
      (addAll devices t).1 =
        if t.numDevice + devices.length ≤ 32 then Error.kSuccess else Error.kFull := by
  induction devices with
  | nil =>
    intro t
    have hle := t.numDevice_le
    rw [List.append_nil, List.take_of_length_le (by rw [length_listed]; exact hle),
      List.length_nil, if_pos (by omega)]
    exact ⟨rfl, rfl⟩
  | cons device devices ih =>
    intro t
    by_cases hlt : t.numDevice < 32
    · obtain ⟨hlisted, herr⟩ := ih (addDevice device t).2
      rw [addAll_cons_of_lt hlt, hlisted, herr, listed_addDevice hlt, numDevice_addDevice hlt,
        List.append_assoc, List.singleton_append, List.length_cons, Nat.add_right_comm,
        Nat.add_assoc]
      exact ⟨rfl, rfl⟩
    · have hfull : t.numDevice = 32 := Nat.le_antisymm t.numDevice_le (Nat.le_of_not_lt hlt)
      rw [addAll_cons_of_full hfull, List.length_cons, if_neg (by omega),
        List.take_append_of_le_length (by rw [length_listed]; omega),
        List.take_of_length_le (by rw [length_listed]; omega)]
      exact ⟨rfl, rfl⟩

/-- A loop whose body adds devices adds all of them. -/
theorem forEach_eq_addAll {α : Type} {body : α → DeviceTable → Option (Error × DeviceTable)}
    {found : α → List Device} {n : ℕ} {as : List α}
    (hbody : ∀ a ∈ as, ∀ t, n ≤ t.numDevice → body a t = some (addAll (found a) t)) :
    ∀ t, n ≤ t.numDevice → forEach body as t = some (addAll (as.flatMap found) t) := by
  induction as with
  | nil => intro t _; rfl
  | cons a as ih =>
    intro t ht
    have hnext := numDevice_le_addAll (found a) t
    have hrest := ih (fun b hb => hbody b (List.mem_cons_of_mem a hb)) (addAll (found a) t).2
      (Nat.le_trans ht hnext)
    unfold forEach
    rw [hbody a List.mem_cons_self t ht, List.flatMap_cons, addAll_append]
    show (if (addAll (found a) t).1.failed then some (addAll (found a) t)
      else forEach body as (addAll (found a) t).2) = _
    rw [hrest]
    split
    · rfl
    · rfl

/-! ## The scan is the walk -/

/-- The entries of the functions that the walk of a bus meets. -/
def found (space : ConfigSpace) (depth : ℕ) (bus : BitVec 8) : List Device :=
  (met (walk (functionsOn space) (FunctionId.nextBus space) depth bus)).map (FunctionId.entry space)

/-- The entries from a function on. -/
def foundFrom (space : ConfigSpace) (depth : ℕ) (f : FunctionId) : List Device :=
  f.entry space :: (f.nextBus space).toList.flatMap (found space depth)

/-- What a bus adds, one nested call less deep. -/
theorem found_succ (depth : ℕ) (bus : BitVec 8) :
    found space (depth + 1) bus = (functionsOn space bus).flatMap (foundFrom space depth) := by
  unfold found
  rw [met_walk_succ, List.map_flatMap]
  congr 1
  funext f
  rw [List.map_cons, List.map_flatMap]
  rfl

/-- A filter and an empty list where it fails come to the same. -/
theorem flatMap_filter {α β : Type*} (p : α → Bool) (g : α → List β) (l : List α) :
    (l.filter p).flatMap g = l.flatMap fun a => if p a then g a else [] := by
  induction l with
  | nil => rfl
  | cons a l ih =>
    rw [List.flatMap_cons]
    cases h : p a with
    | true => rw [List.filter_cons_of_pos h, List.flatMap_cons, ih, if_pos rfl]
    | false =>
      rw [List.filter_cons_of_neg (by simp [h]), ih, if_neg Bool.false_ne_true, List.nil_append]

section Scan

variable {depth : ℕ} (ih : ∀ bus t, 32 < t.numDevice + depth →
  scanBus space depth bus t = some (addAll (found space depth bus) t))

include ih

/-- A function adds itself, and what is behind it if it is a bridge. -/
theorem scanFunction_eq {f : FunctionId} (hf : f.InRange) {t : DeviceTable}
    (ht : 32 - depth ≤ t.numDevice) :
    scanFunction space (scanBus space depth) f.bus f.device f.function t =
      some (addAll (foundFrom space depth f) t) := by
  have hnext : ∀ t', 32 < t'.numDevice + depth →
      (if (f.classCode space).isMatch 0x06#8 0x04#8 then
        scanBus space depth (f.secondaryBus space) t' else some (.kSuccess, t')) =
      some (addAll ((f.nextBus space).toList.flatMap (found space depth)) t') := by
    intro t' ht'
    show (if f.isBridge space then _ else _) = _
    unfold FunctionId.nextBus
    split
    · rw [ih _ _ ht', Option.toList_some, List.flatMap_singleton]
    · rfl
  unfold scanFunction foundFrom FunctionId.entry
  rw [readClassCode_eq hf, readHeaderType_eq hf]
  simp only [secondaryBus_eq hf, scanTable_addDevice]
  by_cases hlt : t.numDevice < 32
  · rw [addAll_cons_of_lt hlt, addDevice_of_lt hlt]
    refine hnext _ ?_
    show 32 < t.numDevice + 1 + depth
    omega
  · have hfull : t.numDevice = 32 := Nat.le_antisymm t.numDevice_le (Nat.le_of_not_lt hlt)
    rw [addAll_cons_of_full hfull, addDevice_of_full hfull]
    rfl

/-- A device adds its first function, and the others that are there. -/
theorem scanDevice_eq {bus device : BitVec 8} (hd : device.toNat < 32) {t : DeviceTable}
    (hpresent : FunctionId.Present space ⟨bus, device, 0#8⟩) (ht : 32 - depth ≤ t.numDevice) :
    scanDevice space (scanBus space depth) bus device t =
      some (addAll ((functionsOfDevice space bus device).flatMap (foundFrom space depth)) t) := by
  have hzero := FunctionId.inRange_zero hd bus
  have hfirst := scanFunction_eq ih hzero ht
  have hsingle : isSingleFunctionDevice (readHeaderType space bus device 0#8) =
      !FunctionId.multiFunction space ⟨bus, device, 0#8⟩ :=
    isSingleFunctionDevice_readHeaderType (f := ⟨bus, device, 0#8⟩) hzero
  -- the loop over the other functions
  have hloop : ∀ t : DeviceTable, 32 - depth ≤ t.numDevice →
      forEach (fun function t =>
        if readVendorId space bus device function = 0xffff#16 then some (.kSuccess, t)
        else scanFunction space (scanBus space depth) bus device function t) (counter 1 7) t =
      some (addAll ((((counter 1 7).map fun function => FunctionId.mk bus device function).filter
        (·.Present space)).flatMap (foundFrom space depth)) t) := by
    intro t ht
    rw [flatMap_filter, List.flatMap_map]
    refine forEach_eq_addAll (fun function hfunction t ht => ?_) t ht
    have hrange := (mem_counter (by decide)).mp hfunction
    have hlt : function.toNat < 8 := by omega
    have hin : FunctionId.InRange ⟨bus, device, function⟩ := ⟨hd, hlt⟩
    refine (ite_readVendorId hin _ _).trans ?_
    by_cases hp : FunctionId.Present space ⟨bus, device, function⟩
    · rw [if_pos hp, if_pos (decide_eq_true hp)]
      exact scanFunction_eq ih hin ht
    · rw [if_neg hp, if_neg (by simpa using hp)]
      rfl
  unfold scanDevice functionsOfDevice
  rw [if_pos hpresent, List.flatMap_cons, addAll_append]
  simp only [hfirst, Option.bind_eq_bind, Option.bind_some, hsingle]
  have hle := numDevice_le_addAll (foundFrom space depth ⟨bus, device, 0#8⟩) t
  split
  · rfl
  · cases hmulti : FunctionId.multiFunction space ⟨bus, device, 0#8⟩ with
    | true =>
      rw [if_neg (by decide), if_pos rfl]
      exact hloop _ (Nat.le_trans ht hle)
    | false => rfl

end Scan

/-- The scan of a bus adds what the walk of the bus meets. -/
theorem scanBus_eq (depth : ℕ) :
    ∀ bus t, 32 < t.numDevice + depth →
      scanBus space depth bus t = some (addAll (found space depth bus) t) := by
  induction depth with
  | zero =>
    intro bus t ht
    have := t.numDevice_le
    omega
  | succ depth ih =>
    intro bus t ht
    unfold scanBus
    rw [found_succ, functionsOn, List.flatMap_assoc]
    refine forEach_eq_addAll (n := 32 - depth) (fun device hdevice t ht => ?_) t (by omega)
    have hrange := (mem_counter (by decide)).mp hdevice
    have hd : device.toNat < 32 := by omega
    refine (ite_readVendorId (FunctionId.inRange_zero hd bus) _ _).trans ?_
    by_cases hp : FunctionId.Present space ⟨bus, device, 0#8⟩
    · rw [if_pos hp]
      exact scanDevice_eq ih hd hp ht
    · rw [if_neg hp, functionsOfDevice, if_neg hp]
      rfl

variable (space) in
/-- `ScanAllBus` adds what the walk from the roots meets to an empty table. -/
theorem scanAllBus_eq {depth : ℕ} (hdepth : 32 < depth) (t : DeviceTable) :
    scanAllBus space depth t = some (addAll
      ((met (survey space depth)).map (FunctionId.entry space))
      { t with numDevice := 0, numDevice_le := Nat.zero_le _ }) := by
  have hdevice : (0#8).toNat < 32 := Nat.zero_lt_succ 31
  have hsingle : isSingleFunctionDevice (readHeaderType space 0#8 0#8 0#8) =
      !FunctionId.multiFunction space ⟨0#8, 0#8, 0#8⟩ :=
    isSingleFunctionDevice_readHeaderType (f := ⟨0#8, 0#8, 0#8⟩)
      (FunctionId.inRange_zero hdevice 0#8)
  have hfound : (met (survey space depth)).map (FunctionId.entry space) =
      (rootBuses space).flatMap (found space depth) := by
    unfold survey found
    rw [met_flatMap, List.map_flatMap]
  unfold scanAllBus
  rw [hfound, rootBuses]
  show (if isSingleFunctionDevice (readHeaderType space 0#8 0#8 0#8) then _ else _) = _
  rw [hsingle]
  -- a host bridge with one function has bus 0, one with more has a bus for each of them
  cases hmulti : FunctionId.multiFunction space ⟨0#8, 0#8, 0#8⟩ with
  | false =>
    rw [if_pos (Bool.not_false), if_neg Bool.false_ne_true, List.flatMap_singleton]
    exact scanBus_eq depth _ _ (by omega)
  | true =>
    rw [if_neg (by decide), if_pos rfl, flatMap_filter]
    refine forEach_eq_addAll (n := 0) (fun function hfunction t _ => ?_) _ (Nat.zero_le _)
    have hrange := (mem_counter (by decide)).mp hfunction
    have hlt : function.toNat < 8 := by omega
    have hin : FunctionId.InRange ⟨0#8, 0#8, function⟩ := ⟨hdevice, hlt⟩
    refine (ite_readVendorId hin _ _).trans ?_
    by_cases hp : FunctionId.Present space ⟨0#8, 0#8, function⟩
    · rw [if_pos hp, if_pos (decide_eq_true hp)]
      exact scanBus_eq depth _ _ (by omega)
    · rw [if_neg hp, if_neg (by simpa using hp)]
      rfl

/-! ## A greater depth changes nothing -/

/-- A loop keeps its result when its body has more depth. -/
theorem forEach_mono {α σ : Type} {body body' : α → σ → Option (Error × σ)}
    (hbody : ∀ a s r, body a s = some r → body' a s = some r) {as : List α} :
    ∀ {s : σ} {r : Error × σ}, forEach body as s = some r → forEach body' as s = some r := by
  induction as with
  | nil =>
    intro s r h
    exact h
  | cons a as ih =>
    intro s r h
    unfold forEach at h ⊢
    obtain ⟨⟨err, s'⟩, hcall, hrest⟩ := Option.bind_eq_some_iff.mp h
    rw [hbody a s _ hcall]
    show (if err.failed then some (err, s') else forEach body' as s') = some r
    simp only at hrest
    by_cases hfailed : err.failed = true
    · rw [if_pos hfailed] at hrest ⊢
      exact hrest
    · rw [if_neg hfailed] at hrest ⊢
      exact ih hrest

/-- A branch that both scans take alike. -/
theorem ite_mono {β : Type*} {c : Prop} [Decidable c] {x x' y y' : Option β} {r : β}
    (hx : x = some r → x' = some r) (hy : y = some r → y' = some r)
    (h : (if c then x else y) = some r) : (if c then x' else y') = some r := by
  split at h
  · next hc =>
    rw [if_pos hc]
    exact hx h
  · next hc =>
    rw [if_neg hc]
    exact hy h

section Depth

variable {scan scan' : BusScan DeviceTable}
  (hscan : ∀ bus t r, scan bus t = some r → scan' bus t = some r)

include hscan

theorem scanFunction_mono {bus device function : BitVec 8} {t : DeviceTable}
    {r : Error × DeviceTable} (h : scanFunction space scan bus device function t = some r) :
    scanFunction space scan' bus device function t = some r := by
  unfold scanFunction at h ⊢
  exact ite_mono id (ite_mono (hscan _ _ _) id) h

theorem scanDevice_mono {bus device : BitVec 8} {t : DeviceTable} {r : Error × DeviceTable}
    (h : scanDevice space scan bus device t = some r) :
    scanDevice space scan' bus device t = some r := by
  unfold scanDevice at h ⊢
  obtain ⟨⟨err, t'⟩, hcall, hrest⟩ := Option.bind_eq_some_iff.mp h
  refine Option.bind_eq_some_iff.mpr ⟨(err, t'), scanFunction_mono hscan hcall, ?_⟩
  exact ite_mono id (ite_mono id
    (forEach_mono fun function t r => ite_mono id (scanFunction_mono hscan))) hrest

end Depth

/-- By induction on the depth: each nested call has one more. -/
theorem scanBus_mono (depth : ℕ) :
    ∀ bus (t : DeviceTable) r, scanBus space depth bus t = some r →
      scanBus space (depth + 1) bus t = some r := by
  induction depth with
  | zero =>
    intro bus t r h
    exact absurd h (by simp [scanBus])
  | succ depth ih =>
    intro bus t r h
    unfold scanBus at h ⊢
    exact forEach_mono (fun device t r => ite_mono id (scanDevice_mono ih)) h

theorem scanAllBus_mono {depth : ℕ} {t : DeviceTable} {r : Error × DeviceTable}
    (h : scanAllBus space depth t = some r) : scanAllBus space (depth + 1) t = some r := by
  unfold scanAllBus at h ⊢
  exact ite_mono (scanBus_mono depth _ _ _)
    (forEach_mono fun function t r => ite_mono id (scanBus_mono depth _ _ _)) h

/-- `ScanAllBus` ends: from a depth of 33 on the result is the same. -/
theorem scanAllBus_of_depth {depth : ℕ} (hdepth : 32 < depth) (t : DeviceTable) :
    scanAllBus space depth t = scanAllBus space 33 t := by
  obtain ⟨n, rfl⟩ := Nat.exists_eq_add_of_le (Nat.succ_le_of_lt hdepth)
  induction n with
  | zero => rfl
  | succ n ih =>
    have hn : 32 < 33 + n := by omega
    rw [← ih hn, scanAllBus_eq space hn, ← Nat.add_assoc]
    exact scanAllBus_mono (scanAllBus_eq space hn t)

end TommyOS.Pci
