import TommyOS.Console.Console
import TommyOS.Console.Layout
import Mathlib.Data.Set.Basic

/-!
# What the console holds and draws

A console shows a layout when `buffer_` and the cursor are those of its last rows. Every
character that `PutString` handles takes the layout a step further, and what it draws turns
the picture of the old rows into the picture of the new ones.
-/

namespace TommyOS
namespace Console

open WriteLog

/-! ## Rows -/

/-- `buffer_` with some rows in it, padded with NULs. -/
def bufferOf (rows : List (List (BitVec 8))) : Buffer := fun i j => (rows.getD i []).getD j 0

/-- A row that fits into `buffer_` and is a string. -/
def PrintableRow (row : List (BitVec 8)) : Prop := row.length ≤ kColumns ∧ 0 ∉ row

theorem printableRow_nil : PrintableRow [] := ⟨Nat.zero_le _, List.not_mem_nil⟩

theorem PrintableRow.getD {rows : List (List (BitVec 8))} (h : ∀ row ∈ rows, PrintableRow row)
    (i : ℕ) : PrintableRow (rows.getD i []) := by
  rw [List.getD_eq_getElem?_getD]
  cases hi : rows[i]? with
  | none => exact printableRow_nil
  | some row => exact h row (List.mem_of_getElem? hi)

/-- A row of `buffer_` is read back as the string it holds. -/
theorem cString_bufferOf {rows : List (List (BitVec 8))} (i : Fin kRows)
    (hrow : PrintableRow (rows.getD i [])) :
    cString (bufferOf rows i) = some (rows.getD i []) := by
  unfold bufferOf
  generalize rows.getD i [] = row at hrow
  obtain ⟨hlen, hnul⟩ := hrow
  -- the row has at most 80 of the 81 characters, so there is a NUL behind it
  have hlist : List.ofFn (fun j : Fin (kColumns + 1) => row.getD j 0) =
      row ++ List.replicate (kColumns + 1 - row.length) 0 := by
    apply List.ext_getElem
    · rw [List.length_ofFn, List.length_append, List.length_replicate]
      omega
    · intro j h1 h2
      rw [List.getElem_ofFn]
      show row.getD j 0 = _
      rw [List.getD_eq_getElem?_getD]
      by_cases hj : j < row.length
      · rw [List.getElem_append_left hj, List.getElem?_eq_getElem hj, Option.getD_some]
      · rw [List.getElem_append_right (by omega), List.getElem_replicate,
          List.getElem?_eq_none (by omega), Option.getD_none]
  have hall : ∀ c ∈ row, decide (c ≠ 0) = true := by
    intro c hc
    rw [decide_eq_true_iff]
    exact fun hzero => hnul (hzero ▸ hc)
  have hpad : kColumns + 1 - row.length = kColumns - row.length + 1 := by omega
  unfold cString
  rw [hlist, hpad, List.replicate_succ, if_pos (by simp), List.takeWhile_append_of_pos hall]
  simp

/-- The writes that draw some rows from the top of the area. -/
def screenWrites (font : Font) (color : PixelColor) (rows : List (List (BitVec 8))) :
    List PixelWrite :=
  (List.range kRows).flatMap fun (i : ℕ) =>
    writeChars font 0 (16 * (i : ℤ)) (rows.getD i []) color

theorem writeString_bufferOf (font : Font) (y : ℤ) {rows : List (List (BitVec 8))}
    (color : PixelColor) (i : Fin kRows) (hrow : PrintableRow (rows.getD i [])) :
    writeString font 0 y (bufferOf rows i) color =
      some (writeChars font 0 y (rows.getD i []) color) := by
  unfold writeString
  rw [cString_bufferOf i hrow]
  rfl

theorem writeChars_nil (font : Font) (x y : ℤ) (color : PixelColor) :
    writeChars font x y [] color = [] := rfl

/-- Drawing one more character at the end of a row. -/
theorem writeChars_concat (font : Font) (x y : ℤ) (row : List (BitVec 8)) (c : BitVec 8)
    (color : PixelColor) :
    writeChars font x y (row ++ [c]) color =
      writeChars font x y row color ++ writeAscii font (x + 8 * (row.length : ℤ)) y c color := by
  unfold writeChars
  rw [List.zipIdx_append, List.flatMap_append]
  simp

/-- A loop whose iterations from `r` on do nothing. -/
theorem flatMap_range_of_nil {β : Type*} {f : ℕ → List β} {r n : ℕ} (hrn : r ≤ n)
    (hf : ∀ i, r ≤ i → f i = []) : (List.range n).flatMap f = (List.range r).flatMap f := by
  obtain ⟨k, hk⟩ := Nat.exists_eq_add_of_le hrn
  have hrest : ((List.range k).map (r + ·)).flatMap f = [] := by
    rw [List.flatMap_eq_nil_iff]
    intro i hi
    obtain ⟨j, _, hj⟩ := List.mem_map.mp hi
    exact hf i (by omega)
  rw [hk, List.range_add, List.flatMap_append, hrest, List.append_nil]

theorem getD_concat_self {β : Type*} (l : List β) (a d : β) : (l ++ [a]).getD l.length d = a := by
  simp [List.getD_eq_getElem?_getD]

theorem getD_concat_of_lt {β : Type*} {l : List β} {a d : β} {i : ℕ} (h : i < l.length) :
    (l ++ [a]).getD i d = l.getD i d := by
  simp [List.getD_eq_getElem?_getD, List.getElem?_append_left h]

theorem getD_of_length_le {β : Type*} {l : List β} {d : β} {i : ℕ} (h : l.length ≤ i) :
    l.getD i d = d := by
  rw [List.getD_eq_getElem?_getD, List.getElem?_eq_none h, Option.getD_none]

theorem getD_concat_of_gt {β : Type*} {l : List β} {a d : β} {i : ℕ} (h : l.length < i) :
    (l ++ [a]).getD i d = d :=
  getD_of_length_le (by rw [List.length_append, List.length_singleton]; exact h)

/-- The picture of some rows is that of all but the last, followed by the last. -/
theorem screenWrites_concat (font : Font) (color : PixelColor) (rows : List (List (BitVec 8)))
    (row : List (BitVec 8)) (hlen : rows.length < kRows) :
    screenWrites font color (rows ++ [row]) =
      screenWrites font color rows ++
        writeChars font 0 (16 * (rows.length : ℤ)) row color := by
  unfold screenWrites
  have hbeyond : ∀ i, rows.length + 1 ≤ i →
      writeChars font 0 (16 * (i : ℤ)) ((rows ++ [row]).getD i []) color = [] := by
    intro i hi
    rw [getD_concat_of_gt hi, writeChars_nil]
  have hbeyond' : ∀ i, rows.length ≤ i →
      writeChars font 0 (16 * (i : ℤ)) (rows.getD i []) color = [] := by
    intro i hi
    rw [getD_of_length_le hi, writeChars_nil]
  rw [flatMap_range_of_nil hlen hbeyond, flatMap_range_of_nil (Nat.le_of_lt hlen) hbeyond',
    List.range_succ, List.flatMap_append, List.flatMap_singleton, getD_concat_self]
  congr 1
  apply List.flatMap_congr
  intro i hi
  rw [getD_concat_of_lt (List.mem_range.mp hi)]

/-- An empty row more is not visible. -/
theorem screenWrites_concat_nil (font : Font) (color : PixelColor)
    (rows : List (List (BitVec 8))) (hlen : rows.length < kRows) :
    screenWrites font color (rows ++ [[]]) = screenWrites font color rows := by
  rw [screenWrites_concat font color rows [] hlen, writeChars_nil, List.append_nil]

theorem bufferOf_concat_nil (rows : List (List (BitVec 8))) :
    bufferOf (rows ++ [[]]) = bufferOf rows := by
  funext i j
  unfold bufferOf
  by_cases hi : i.val < rows.length
  · rw [getD_concat_of_lt hi]
  · have hnil : rows.getD i.val [] = [] := getD_of_length_le (Nat.le_of_not_lt hi)
    rw [hnil]
    by_cases heq : i.val = rows.length
    · rw [heq, getD_concat_self]
    · rw [getD_concat_of_gt (show rows.length < i.val by omega)]

/-- Storing a character behind the last one of the last row. -/
theorem bufferOf_concat_concat (above : List (List (BitVec 8))) (current : List (BitVec 8))
    (c : BitVec 8) (hrow : above.length < kRows) (hcolumn : current.length < kColumns + 1) :
    Function.update (bufferOf (above ++ [current])) ⟨above.length, hrow⟩
        (Function.update (bufferOf (above ++ [current]) ⟨above.length, hrow⟩)
          ⟨current.length, hcolumn⟩ c) =
      bufferOf (above ++ [current ++ [c]]) := by
  funext i j
  unfold bufferOf
  -- the row of the cursor, and in it the cell of the cursor
  by_cases hi : i = ⟨above.length, hrow⟩
  · rw [hi, Function.update_self, getD_concat_self]
    by_cases hj : j = ⟨current.length, hcolumn⟩
    · rw [hj, Function.update_self]
      show c = ((above ++ [current ++ [c]]).getD above.length []).getD current.length 0
      rw [getD_concat_self, getD_concat_self]
    · have hne : j.val ≠ current.length := fun h => hj (Fin.ext h)
      rw [Function.update_of_ne hj, getD_concat_self]
      by_cases hlt : j.val < current.length
      · rw [getD_concat_of_lt hlt]
      · rw [getD_of_length_le (Nat.le_of_not_lt hlt),
          getD_concat_of_gt (show current.length < j.val by omega)]
  · have hne : i.val ≠ above.length := fun h => hi (Fin.ext h)
    rw [Function.update_of_ne hi]
    by_cases hlt : i.val < above.length
    · rw [getD_concat_of_lt hlt, getD_concat_of_lt hlt]
    · have hgt : above.length < i.val := by omega
      rw [getD_concat_of_gt hgt, getD_concat_of_gt hgt]

/-! ## The area -/

/-- The 640 by 400 pixels of the console. -/
def area : Set (Vector2D ℤ) :=
  {p | (0 ≤ p.x ∧ p.x < 8 * (kColumns : ℤ)) ∧ 0 ≤ p.y ∧ p.y < 16 * (kRows : ℤ)}

theorem mem_area {p : Vector2D ℤ} : p ∈ area ↔ (0 ≤ p.x ∧ p.x < 8 * (kColumns : ℤ)) ∧
    0 ≤ p.y ∧ p.y < 16 * (kRows : ℤ) := Iff.rfl

/-- A glyph stays inside its cell of 8 by 16 pixels. -/
theorem writeAscii_cell {font : Font} {x y : ℤ} {c : BitVec 8} {color : PixelColor}
    {w : PixelWrite} (hw : w ∈ writeAscii font x y c color) :
    (x ≤ w.1.x ∧ w.1.x < x + 8) ∧ y ≤ w.1.y ∧ w.1.y < y + 16 := by
  unfold writeAscii at hw
  cases hglyph : getFont font c with
  | none =>
    rw [hglyph] at hw
    exact absurd hw List.not_mem_nil
  | some index =>
    rw [hglyph] at hw
    simp only [List.mem_flatMap, List.mem_filterMap, List.mem_range,
      Option.ite_none_right_eq_some, Option.some.injEq] at hw
    obtain ⟨dx, hdx, dy, hdy, _, heq⟩ := hw
    rw [← heq]
    simp only
    omega

theorem writeAscii_area {font : Font} {row column : ℕ} {c : BitVec 8} {color : PixelColor}
    (hrow : row < kRows) (hcolumn : column < kColumns) {w : PixelWrite}
    (hw : w ∈ writeAscii font (8 * (column : ℤ)) (16 * (row : ℤ)) c color) : w.1 ∈ area := by
  have hcell := writeAscii_cell hw
  rw [mem_area]
  omega

theorem writeChars_area {font : Font} {row : ℕ} {s : List (BitVec 8)} {color : PixelColor}
    (hrow : row < kRows) (hs : s.length ≤ kColumns) {w : PixelWrite}
    (hw : w ∈ writeChars font 0 (16 * (row : ℤ)) s color) : w.1 ∈ area := by
  unfold writeChars at hw
  obtain ⟨⟨c, i⟩, hi, hw'⟩ := List.mem_flatMap.mp hw
  have hlt := List.snd_lt_of_mem_zipIdx hi
  simp only [Int.zero_add] at hw' hlt
  exact writeAscii_area hrow (by omega) hw'

theorem screenWrites_area {font : Font} {color : PixelColor} {rows : List (List (BitVec 8))}
    (hrows : ∀ row ∈ rows, PrintableRow row) {w : PixelWrite}
    (hw : w ∈ screenWrites font color rows) : w.1 ∈ area := by
  obtain ⟨i, hi, hw'⟩ := List.mem_flatMap.mp hw
  exact writeChars_area (List.mem_range.mp hi) (PrintableRow.getD hrows i).1 hw'

theorem mem_fillArea {bgColor : PixelColor} {w : PixelWrite} :
    w ∈ fillArea bgColor ↔ w.1 ∈ area ∧ w.2 = bgColor := by
  unfold fillArea
  simp only [List.mem_flatMap, List.mem_map, List.mem_range]
  constructor
  · intro h
    obtain ⟨y, hy, x, hx, heq⟩ := h
    rw [← heq, mem_area]
    refine ⟨?_, rfl⟩
    simp only
    omega
  · intro h
    obtain ⟨⟨px, py⟩, c⟩ := w
    obtain ⟨⟨⟨hx0, hx⟩, hy0, hy⟩, hc⟩ := h
    simp only at hx0 hx hy0 hy hc
    lift px to ℕ using hx0
    lift py to ℕ using hy0
    refine ⟨py, by omega, px, by omega, ?_⟩
    rw [hc]

/-- The fill covers the area. -/
theorem lastWrite_fillArea {bgColor : PixelColor} {p : Vector2D ℤ} (hp : p ∈ area) :
    lastWrite (fillArea bgColor) p = some bgColor := by
  apply lastWrite_eq_some_of_unique
  · rw [mem_fillArea]
    exact ⟨hp, rfl⟩
  · intro c hc
    exact (mem_fillArea.mp hc).2

/-- Writes in the area that turn the picture of some rows, on the background, into that of
others. -/
structure Redraws (font : Font) (fgColor bgColor : PixelColor) (writes : List PixelWrite)
    (rows rows' : List (List (BitVec 8))) : Prop where
  area : ∀ w ∈ writes, w.1 ∈ area
  picture : ∀ p ∈ Console.area,
    (lastWrite writes p).getD ((lastWrite (screenWrites font fgColor rows) p).getD bgColor) =
      (lastWrite (screenWrites font fgColor rows') p).getD bgColor

section Redraws

variable {font : Font} {fgColor bgColor : PixelColor} {writes writes' : List PixelWrite}
  {rows rows' rows'' : List (List (BitVec 8))}

theorem Redraws.refl : Redraws font fgColor bgColor [] rows rows :=
  ⟨fun _ hw => absurd hw List.not_mem_nil, fun _ _ => rfl⟩

theorem Redraws.trans (h : Redraws font fgColor bgColor writes rows rows')
    (h' : Redraws font fgColor bgColor writes' rows' rows'') :
    Redraws font fgColor bgColor (writes ++ writes') rows rows'' := by
  refine ⟨fun w hw => ?_, fun p hp => ?_⟩
  · rcases List.mem_append.mp hw with hmem | hmem
    · exact h.area w hmem
    · exact h'.area w hmem
  · -- a pixel is drawn by the second list, or by the first, or by neither
    rw [← h'.picture p hp, ← h.picture p hp, lastWrite_append]
    cases lastWrite writes' p with
    | none => rfl
    | some c => rfl

/-- Drawing only what the new rows have more. -/
theorem Redraws.of_append (harea : ∀ w ∈ writes, w.1 ∈ Console.area)
    (hscreen : screenWrites font fgColor rows' = screenWrites font fgColor rows ++ writes) :
    Redraws font fgColor bgColor writes rows rows' := by
  refine ⟨harea, fun p _ => ?_⟩
  rw [hscreen, lastWrite_append]
  cases lastWrite writes p with
  | none => rfl
  | some c => rfl

/-- Filling the area and drawing the new rows on it. -/
theorem Redraws.of_fill (hrows : ∀ row ∈ rows', PrintableRow row)
    (hwrites : writes = fillArea bgColor ++ screenWrites font fgColor rows') :
    Redraws font fgColor bgColor writes rows rows' := by
  rw [hwrites]
  refine ⟨fun w hw => ?_, fun p hp => ?_⟩
  · rcases List.mem_append.mp hw with hmem | hmem
    · exact (mem_fillArea.mp hmem).1
    · exact screenWrites_area hrows hmem
  · -- the fill hides the old picture, whatever it was
    rw [lastWrite_append, lastWrite_fillArea hp]
    cases lastWrite (screenWrites font fgColor rows') p with
    | none => rfl
    | some c => rfl

end Redraws

end Console
end TommyOS
