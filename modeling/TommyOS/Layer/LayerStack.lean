import TommyOS.Layer.Layer
import TommyOS.Lib.InputRun
import TommyOS.Lib.Restack

/-!
# The stack over whole runs

The calls of the layer manager, one after the other. `UpDown` puts a layer at a height and leaves
the order of the others alone. A null pointer gets into the stack only through an id that no layer
has.
-/

namespace TommyOS

open Restack InputRun

inductive LayerCall where
  | newLayer (uninitialised : Vector2D ℤ)
  | move (id : ℕ) (newPosition : Vector2D ℤ)
  | moveRelative (id : ℕ) (posDiff : Vector2D ℤ)
  | upDown (id : ℕ) (newHeight : ℤ)
  | hide (id : ℕ)
  | draw

/-- The id that a call is given. -/
def LayerCall.layerId : LayerCall → Option ℕ
  | .move id _ | .moveRelative id _ | .upDown id _ | .hide id => some id
  | .newLayer _ | .draw => none

namespace LayerManager

variable {W : Type*} {m m' : LayerManager W} {id i : ℕ} {newHeight : ℤ} {layer : Layer}
  {call : LayerCall}

/-- The manager with a writer, and without layers. -/
def start (writer : Option W) : LayerManager W := { (new : LayerManager W) with writer := writer }

/-- A call, or nothing where it dereferences a null pointer. -/
def perform (m : LayerManager W) : LayerCall → Option (LayerManager W)
  | .newLayer uninitialised => some (m.newLayer uninitialised).2
  | .move id newPosition => m.move id newPosition
  | .moveRelative id posDiff => m.moveRelative id posDiff
  | .upDown id newHeight => some (m.upDown id newHeight)
  | .hide id => some (m.hide id)
  | .draw => m.draw.map fun _ => m

/-! ## Heights -/

/-- Above the bottom, a new layer and one of the stack are treated alike. -/
theorem upDown_eq_raise (hheight : 0 ≤ newHeight) :
    m.upDown id newHeight =
      { m with layerStack := raise m.layerStack (m.findLayer id) newHeight.toNat } := by
  unfold upDown raise
  rw [if_neg (Int.not_lt.mpr hheight)]
  by_cases hmem : m.findLayer id ∈ m.layerStack
  · have hlength := List.length_erase_of_mem hmem
    have hpos := List.length_pos_of_mem hmem
    have hback : (if min newHeight.toNat m.layerStack.length = m.layerStack.length then
        min newHeight.toNat m.layerStack.length - 1
      else min newHeight.toNat m.layerStack.length) =
        min newHeight.toNat (m.layerStack.erase (m.findLayer id)).length := by
      rw [hlength]
      split <;> omega
    simp only [if_pos hmem, hback]
  · simp only [if_neg hmem, List.erase_of_not_mem hmem]

theorem upDown_eq_hide (hheight : newHeight < 0) : m.upDown id newHeight = m.hide id :=
  if_pos hheight

/-- The ids count the layers, and no layer is twice in the stack. -/
structure Stacked (m : LayerManager W) : Prop where
  nodup : m.layerStack.Nodup
  latest : m.latestId = m.layers.length % 2 ^ 32
  ids : ∀ i layer, m.layers[i]? = some layer → layer.id = (i + 1) % 2 ^ 32

theorem stacked_start (writer : Option W) : (start writer).Stacked where
  nodup := List.nodup_nil
  latest := rfl
  ids := fun i _ h => absurd h (by simp [start, new])

theorem Stacked.layerStack (hm : m.Stacked) {stack : List (Option ℕ)} (hstack : stack.Nodup) :
    Stacked { m with layerStack := stack } :=
  { hm with nodup := hstack }

theorem Stacked.newLayer (hm : m.Stacked) (uninitialised : Vector2D ℤ) :
    (m.newLayer uninitialised).2.Stacked where
  nodup := hm.nodup
  latest := by
    show (m.latestId + 1) % 2 ^ 32 = _
    rw [hm.latest, LayerManager.newLayer, List.length_append, List.length_singleton,
      Nat.mod_add_mod]
  ids := by
    intro i layer h
    rw [LayerManager.newLayer, List.getElem?_append, List.getElem?_singleton] at h
    split at h
    · exact hm.ids i layer h
    · next hi =>
      split at h
      · next hlast =>
        obtain rfl := Option.some.inj h
        have hlength : m.layers.length = i := by omega
        show (m.latestId + 1) % 2 ^ 32 = _
        rw [hm.latest, hlength, Nat.mod_add_mod]
      · exact nomatch h

theorem Stacked.modify (hm : m.Stacked) {p : Option ℕ} {f : Layer → Layer}
    (hf : ∀ layer, (f layer).id = layer.id) (h : m.modify p f = some m') : m'.Stacked := by
  cases p with
  | none => exact nomatch h
  | some j =>
    simp only [LayerManager.modify] at h
    split at h
    · obtain rfl := Option.some.inj h
      refine ⟨hm.nodup, ?_, fun i layer hlayer => ?_⟩
      · rw [List.length_modify]
        exact hm.latest
      · rw [List.getElem?_modify, Option.map_eq_map, Option.map_eq_some_iff] at hlayer
        obtain ⟨before, hbefore, rfl⟩ := hlayer
        rw [← hm.ids i before hbefore]
        split
        · exact hf before
        · rfl
    · exact nomatch h

theorem Stacked.perform (hm : m.Stacked) (h : m.perform call = some m') : m'.Stacked := by
  cases call with
  | newLayer uninitialised => exact Option.some.inj h ▸ hm.newLayer uninitialised
  | move id newPosition =>
    exact hm.modify (f := fun layer => layer.move newPosition) (fun _ => rfl) h
  | moveRelative id posDiff =>
    exact hm.modify (f := fun layer => layer.moveRelative posDiff) (fun _ => rfl) h
  | upDown id newHeight =>
    obtain rfl := Option.some.inj h
    by_cases hheight : newHeight < 0
    · rw [upDown_eq_hide hheight]
      exact hm.layerStack (hm.nodup.erase _)
    · rw [upDown_eq_raise (Int.not_lt.mp hheight)]
      exact hm.layerStack (nodup_raise hm.nodup)
  | hide id => exact Option.some.inj h ▸ hm.layerStack (hm.nodup.erase _)
  | draw =>
    obtain ⟨_, -, rfl⟩ := Option.map_eq_some_iff.mp h
    exact hm

/-- While the ids do not wrap, `FindLayer` finds the layer with the id. -/
theorem Stacked.findLayer_eq (hm : m.Stacked) (hcount : m.layers.length < 2 ^ 32)
    (hlayer : m.layers[i]? = some layer) : m.findLayer layer.id = some i := by
  have hid : ∀ j l, m.layers[j]? = some l → l.id = j + 1 := by
    intro j l hl
    have hlt := (List.getElem?_eq_some_iff.mp hl).1
    rw [hm.ids j l hl]
    exact Nat.mod_eq_of_lt (by omega)
  unfold findLayer
  rw [List.findIdx?_eq_some_iff_getElem]
  obtain ⟨hi, hget⟩ := List.getElem?_eq_some_iff.mp hlayer
  refine ⟨hi, by rw [hget, beq_self_eq_true], fun j hj => ?_⟩
  have hother := hid j _ (List.getElem?_eq_getElem (hj.trans hi))
  have hself := hid i layer hlayer
  rw [Bool.not_eq_true, beq_eq_false_iff_ne, hother, hself]
  omega

/-- `UpDown` moves a layer to the requested height, or to the top where the stack is not that
high, and takes it away below 0. Without it the stack is the one before. -/
theorem upDown_moves (writer : Option W) (calls : List LayerCall) (m : LayerManager W)
    (hrun : run perform (start writer) calls = some m) (hcount : m.layers.length < 2 ^ 32)
    (i : ℕ) (layer : Layer) (hlayer : m.layers[i]? = some layer) (newHeight : ℤ) :
    let stack := (m.upDown layer.id newHeight).layerStack
    stack.Nodup ∧ (newHeight < 0 → some i ∉ stack) ∧
      (0 ≤ newHeight → stack[min newHeight.toNat (stack.length - 1)]? = some (some i)) ∧
      stack.erase (some i) = m.layerStack.erase (some i) := by
  have hm : m.Stacked :=
    run_invariant (R := Stacked) (fun _ _ _ hm h => hm.perform h) (stacked_start writer) hrun
  have hfind := hm.findLayer_eq hcount hlayer
  by_cases hheight : newHeight < 0
  · simp only [upDown_eq_hide hheight, hide, hfind]
    have habsent : some i ∉ m.layerStack.erase (some i) := hm.nodup.not_mem_erase
    exact ⟨hm.nodup.erase _, fun _ => habsent, fun hnot => absurd hheight (Int.not_lt.mpr hnot),
      List.erase_of_not_mem habsent⟩
  · simp only [upDown_eq_raise (Int.not_lt.mp hheight), hfind]
    exact ⟨nodup_raise hm.nodup, fun hnot => absurd hnot hheight, fun _ => getElem?_raise,
      erase_raise hm.nodup⟩

/-- Three layers, of which the lowest goes to the top. -/
theorem upDown_moves_to_top :
    ∃ m : LayerManager Unit,
      run perform (start none) [.newLayer ⟨0, 0⟩, .newLayer ⟨0, 0⟩, .newLayer ⟨0, 0⟩,
        .upDown 1 0, .upDown 2 1, .upDown 3 2] = some m ∧
      (m.upDown 1 9).layerStack.Nodup ∧
      (m.upDown 1 9).layerStack.erase (some 0) = m.layerStack.erase (some 0) :=
  have h := upDown_moves (none : Option Unit) [.newLayer ⟨0, 0⟩, .newLayer ⟨0, 0⟩,
    .newLayer ⟨0, 0⟩, .upDown 1 0, .upDown 2 1, .upDown 3 2] _ rfl (by decide) 0 _ rfl 9
  ⟨_, rfl, h.1, h.2.2.2⟩

/-! ## Unknown ids -/

/-- Some layer has the id. -/
def HasLayer (m : LayerManager W) (id : ℕ) : Prop := ∃ layer ∈ m.layers, layer.id = id

/-- A call dereferences no null pointer and leaves none in the stack, and does nothing for an id
that no layer has. -/
def Harmless (m : LayerManager W) (call : LayerCall) : Prop :=
  ∃ m', m.perform call = some m' ∧ none ∉ m'.layerStack ∧
    ∀ id, call.layerId = some id → ¬ m.HasLayer id →
      m'.layers = m.layers ∧ m'.layerStack = m.layerStack

/-- Only `Hide`, and `UpDown` below 0, have an id that no layer has. -/
def Known (m : LayerManager W) : LayerCall → Prop
  | .move id _ | .moveRelative id _ => m.HasLayer id
  | .upDown id newHeight => newHeight < 0 ∨ m.HasLayer id
  | .newLayer _ | .hide _ | .draw => True

theorem findLayer_eq_none : m.findLayer id = none ↔ ¬ m.HasLayer id := by
  unfold findLayer HasLayer
  rw [List.findIdx?_eq_none_iff]
  simp only [beq_eq_false_iff_ne, not_exists, not_and, ne_eq]

theorem findLayer_of_hasLayer (h : m.HasLayer id) :
    ∃ i < m.layers.length, m.findLayer id = some i := by
  obtain ⟨i, hi⟩ := Option.ne_none_iff_exists'.mp (mt findLayer_eq_none.mp (not_not_intro h))
  exact ⟨i, (List.findIdx?_eq_some_iff_getElem.mp hi).1, hi⟩

/-- There is a writer, and every pointer in the stack points to a layer. -/
structure Drawable (m : LayerManager W) : Prop where
  writer : m.writer.isSome
  pointers : ∀ p ∈ m.layerStack, ∃ i < m.layers.length, p = some i

theorem Drawable.none_notMem (hm : m.Drawable) : none ∉ m.layerStack := by
  intro hmem
  obtain ⟨i, -, hp⟩ := hm.pointers none hmem
  exact nomatch hp

theorem Drawable.draw (hm : m.Drawable) : ∃ writes, m.draw = some writes := by
  obtain ⟨writer, hwriter⟩ := Option.isSome_iff_exists.mp hm.writer
  have hall : ∀ pointers : List (Option ℕ), (∀ p ∈ pointers, ∃ i < m.layers.length,
      p = some i) → ∃ writes, pointers.mapM m.drawLayer = some writes := by
    intro pointers hpointers
    induction pointers with
    | nil => exact ⟨[], rfl⟩
    | cons p pointers ih =>
      obtain ⟨i, hi, rfl⟩ := hpointers p List.mem_cons_self
      obtain ⟨writes, hwrites⟩ := ih fun q hq => hpointers q (List.mem_cons_of_mem _ hq)
      have hlayer : m.drawLayer (some i) = some m.layers[i].drawTo := by
        simp only [drawLayer, deref, Option.bind_some, List.getElem?_eq_getElem hi, hwriter]
      rw [List.mapM_cons, hlayer, hwrites]
      exact ⟨_, rfl⟩
  obtain ⟨writes, hwrites⟩ := hall m.layerStack hm.pointers
  exact ⟨writes.flatten, by rw [LayerManager.draw, hwrites, Option.map_some]⟩

theorem Drawable.layerStack (hm : m.Drawable) {stack : List (Option ℕ)}
    (hstack : ∀ p ∈ stack, p ∈ m.layerStack ∨ ∃ i < m.layers.length, p = some i) :
    Drawable { m with layerStack := stack } :=
  { hm with pointers := fun p hp => (hstack p hp).elim (hm.pointers p) id }

theorem Drawable.hide (hm : m.Drawable) (id : ℕ) : (m.hide id).Drawable :=
  hm.layerStack fun _ hp => .inl (List.mem_of_mem_erase hp)

theorem hide_unknown (hm : m.Drawable) (hid : ¬ m.HasLayer id) : m.hide id = m := by
  unfold hide
  rw [findLayer_eq_none.mpr hid, List.erase_of_not_mem hm.none_notMem]

theorem modify_findLayer (hm : m.Drawable) (hid : m.HasLayer id) (f : Layer → Layer) :
    ∃ m', m.modify (m.findLayer id) f = some m' ∧ m'.Drawable := by
  obtain ⟨i, hi, hfind⟩ := findLayer_of_hasLayer hid
  rw [hfind, modify, if_pos hi]
  refine ⟨_, rfl, hm.writer, fun p hp => ?_⟩
  rw [List.length_modify]
  exact hm.pointers p hp

/-- With a known id, a call keeps every pointer of the stack good. -/
theorem Known.perform (hm : m.Drawable) (hknown : m.Known call) :
    ∃ m', m.perform call = some m' ∧ m'.Drawable := by
  cases call with
  | newLayer uninitialised =>
    refine ⟨_, rfl, hm.writer, fun p hp => ?_⟩
    obtain ⟨i, hi, hp⟩ := hm.pointers p hp
    rw [newLayer, List.length_append]
    exact ⟨i, Nat.lt_add_right _ hi, hp⟩
  | move id newPosition => exact modify_findLayer hm hknown _
  | moveRelative id posDiff => exact modify_findLayer hm hknown _
  | upDown id newHeight =>
    refine ⟨_, rfl, ?_⟩
    by_cases hheight : newHeight < 0
    · rw [upDown_eq_hide hheight]
      exact hm.hide id
    · rw [upDown_eq_raise (Int.not_lt.mp hheight)]
      obtain ⟨i, hi, hfind⟩ := findLayer_of_hasLayer (hknown.resolve_left hheight)
      refine hm.layerStack fun p hp => ?_
      rcases mem_raise.mp hp with rfl | hp
      · exact .inr ⟨i, hi, hfind⟩
      · exact .inl (List.mem_of_mem_erase hp)
  | hide id => exact ⟨_, rfl, hm.hide id⟩
  | draw =>
    obtain ⟨writes, hdraw⟩ := hm.draw
    exact ⟨m, by rw [LayerManager.perform, hdraw, Option.map_some], hm⟩

theorem harmless_iff_known (hm : m.Drawable) : m.Harmless call ↔ m.Known call := by
  constructor
  -- an unknown id fails in `Move` and `MoveRelative`, and pushes a null in `UpDown`
  · rintro ⟨m', hperform, hnone, -⟩
    cases call with
    | newLayer uninitialised => trivial
    | move id newPosition =>
      by_contra hid
      rw [LayerManager.perform, move, findLayer_eq_none.mpr hid] at hperform
      exact nomatch hperform
    | moveRelative id posDiff =>
      by_contra hid
      rw [LayerManager.perform, moveRelative, findLayer_eq_none.mpr hid] at hperform
      exact nomatch hperform
    | upDown id newHeight =>
      by_contra hnot
      obtain ⟨hheight, hid⟩ := not_or.mp hnot
      obtain rfl := Option.some.inj hperform
      rw [upDown_eq_raise (Int.not_lt.mp hheight), findLayer_eq_none.mpr hid] at hnone
      exact hnone (mem_raise.mpr (.inl rfl))
    | hide id => trivial
    | draw => trivial
  · intro hknown
    obtain ⟨m', hperform, hm'⟩ := hknown.perform hm
    refine ⟨m', hperform, hm'.none_notMem, fun id hcall hid => ?_⟩
    -- with a negative height `UpDown` hides, which an unknown id does not matter for
    cases call with
    | newLayer uninitialised => exact nomatch hcall
    | move id newPosition => exact absurd (Option.some.inj hcall ▸ hknown) hid
    | moveRelative id posDiff => exact absurd (Option.some.inj hcall ▸ hknown) hid
    | upDown id newHeight =>
      obtain rfl := Option.some.inj hcall
      obtain rfl := Option.some.inj hperform
      rw [upDown_eq_hide (hknown.resolve_right hid), hide_unknown hm hid]
      exact ⟨rfl, rfl⟩
    | hide id =>
      obtain rfl := Option.some.inj hcall
      obtain rfl := Option.some.inj hperform
      rw [hide_unknown hm hid]
      exact ⟨rfl, rfl⟩
    | draw => exact nomatch hcall

/-- The calls of a run are harmless exactly when none but `Hide`, and `UpDown` below 0, has an id
that no layer has. -/
theorem unknownIds_harmless_iff (writer : W) (calls : List LayerCall) :
    Throughout perform Harmless (start (some writer)) calls ↔
      Throughout perform Known (start (some writer)) calls := by
  refine throughout_congr (R := Drawable) (fun m call m' hm hharmless h => ?_)
    (fun m call hm => harmless_iff_known hm) ⟨rfl, fun p hp => absurd hp List.not_mem_nil⟩
  obtain ⟨_, hperform, hm'⟩ := ((harmless_iff_known hm).mp hharmless).perform hm
  rw [h] at hperform
  exact Option.some.inj hperform ▸ hm'

/-- `UpDown` puts a null pointer in the stack, which `Draw` dereferences; `Move` does so at
once. -/
theorem unknownId_dereferenced :
    ¬ Throughout perform Harmless (start (some ())) [.upDown 7 0, .draw] ∧
    (run perform (start (some ())) [.upDown 7 0, .draw]).isNone ∧
    (run perform (start (some ())) [.move 7 ⟨0, 0⟩]).isNone := by
  refine ⟨?_, by decide, by decide⟩
  rintro ⟨⟨m', hperform, hnone, -⟩, -⟩
  obtain rfl := Option.some.inj hperform
  exact hnone (by decide)

end LayerManager

end TommyOS
