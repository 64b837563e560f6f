import TommyOS.Console.ConsoleTheorems

/-!
# `PutString`, character by character

`Newline` and the loop body of `PutString` refine one step of `Layout.console` and redraw
the rows that changed. Over a whole text the console therefore holds `Layout.console`, and
the reference layout as far as the lines of the text fit into 80 columns.
-/

namespace TommyOS
namespace Console

open WriteLog

variable {W : Type} (font : Font) {con con' : Console W} {layout : Layout (BitVec 8)}

/-- `buffer_` and the cursor are those of the last 25 rows of a layout. -/
structure Shows (con : Console W) (layout : Layout (BitVec 8)) : Prop where
  buffer : con.buffer = bufferOf (layout.visible kRows)
  cursorRow : con.cursorRow + 1 = (layout.visible kRows).length
  cursorColumn : con.cursorColumn = layout.current.length

/-- Every row of the layout fits into a row of `buffer_`. -/
def Printable (layout : Layout (BitVec 8)) : Prop := ∀ row ∈ layout.rows, PrintableRow row

/-- The parts of a console that printing leaves alone. -/
structure SameSetup (con con' : Console W) : Prop where
  writer : con'.writer = con.writer
  fgColor : con'.fgColor = con.fgColor
  bgColor : con'.bgColor = con.bgColor

/-- The console after an operation: it shows a new layout and has drawn the change. -/
structure Prints (font : Font) (con con' : Console W) (layout layout' : Layout (BitVec 8))
    (writes : List PixelWrite) : Prop where
  shows : con'.Shows layout'
  setup : SameSetup con con'
  redraws : Redraws font con.fgColor con.bgColor writes (layout.visible kRows)
    (layout'.visible kRows)

theorem Printable.visible (h : Printable layout) :
    ∀ row ∈ layout.visible kRows, PrintableRow row :=
  fun row hrow => h row (Layout.mem_rows_of_mem_visible hrow)

theorem Printable.endRow (h : Printable layout) : Printable layout.endRow := by
  intro row hrow
  rcases List.mem_append.mp hrow with hmem | hmem
  · exact h row hmem
  · rw [List.mem_singleton.mp hmem]
    exact printableRow_nil

theorem Printable.append (h : Printable layout) {c : BitVec 8} (hc : c ≠ 0)
    (hroom : layout.current.length < kColumns) : Printable (layout.append c) := by
  have hcurrent := h layout.current (List.mem_append_right _ (List.mem_singleton_self _))
  intro row hrow
  rcases List.mem_append.mp hrow with hmem | hmem
  · exact h row (List.mem_append_left _ hmem)
  · rw [List.mem_singleton.mp hmem]
    refine ⟨?_, ?_⟩
    · rw [Layout.append, List.length_append, List.length_singleton]
      exact hroom
    · rw [Layout.append, List.mem_append, not_or, List.mem_singleton]
      exact ⟨hcurrent.2, Ne.symm hc⟩

/-! ## The scroll -/

/-- `buffer_` after the first `k` iterations of the scroll. -/
def scrolled (rows : List (List (BitVec 8))) (k : ℕ) : Buffer :=
  fun i j => (rows.getD (if i.val < k then i.val + 1 else i.val) []).getD j 0

/-- One iteration moves one row up and draws it. -/
theorem scrollRow_scrolled {rows : List (List (BitVec 8))}
    (hrows : ∀ row ∈ rows, PrintableRow row) {k : ℕ} (hk : k + 1 < kRows) (color : PixelColor)
    (writes : List PixelWrite) :
    scrollRow font color (scrolled rows k, writes) k =
      some (scrolled rows (k + 1),
        writes ++ writeChars font 0 (16 * (k : ℤ)) (rows.getD (k + 1) []) color) := by
  -- the row below has not been moved yet
  have hline : scrolled rows k ⟨k + 1, hk⟩ = bufferOf rows ⟨k + 1, hk⟩ := by
    funext j
    unfold scrolled bufferOf
    rw [if_neg (show ¬ k + 1 < k by omega)]
  have hmoved : Function.update (scrolled rows k) ⟨k, Nat.lt_of_succ_lt hk⟩
      (bufferOf rows ⟨k + 1, hk⟩) = scrolled rows (k + 1) := by
    funext i
    by_cases hi : i = ⟨k, Nat.lt_of_succ_lt hk⟩
    · rw [hi, Function.update_self]
      funext j
      unfold scrolled bufferOf
      rw [if_pos (Nat.lt_succ_self k)]
    · have hne : i.val ≠ k := fun h => hi (Fin.ext h)
      rw [Function.update_of_ne hi]
      funext j
      unfold scrolled
      by_cases hlt : i.val < k
      · rw [if_pos hlt, if_pos (by omega)]
      · rw [if_neg hlt, if_neg (by omega)]
  unfold scrollRow
  rw [dif_pos hk]
  simp only [hline, hmoved, writeString_bufferOf font _ color _ (PrintableRow.getD hrows _),
    Option.map_some]

/-- The loop, by induction on the number of iterations. -/
theorem foldlM_scrollRow {rows : List (List (BitVec 8))}
    (hrows : ∀ row ∈ rows, PrintableRow row) {k : ℕ} (hk : k < kRows) (color : PixelColor)
    (writes : List PixelWrite) :
    (List.range k).foldlM (scrollRow font color) (bufferOf rows, writes) =
      some (scrolled rows k, writes ++ (List.range k).flatMap fun (i : ℕ) =>
        writeChars font 0 (16 * (i : ℤ)) (rows.getD (i + 1) []) color) := by
  induction k with
  | zero =>
    rw [List.range_zero, List.foldlM_nil, List.flatMap_nil, List.append_nil]
    rfl
  | succ k ih =>
    rw [List.range_succ, List.foldlM_append, ih (by omega), List.flatMap_append,
      ← List.append_assoc]
    simp only [Option.bind_eq_bind, Option.bind_some, List.foldlM_cons, List.foldlM_nil,
      scrollRow_scrolled font hrows hk, List.flatMap_cons, List.flatMap_nil, List.append_nil]
    rfl

/-- Clearing the last row leaves the rows below the first. -/
theorem scrolled_clear {rows : List (List (BitVec 8))} (hlen : rows.length = kRows) :
    Function.update (scrolled rows (kRows - 1)) ⟨kRows - 1, by decide⟩ (fun _ => 0) =
      bufferOf (rows.tail ++ [[]]) := by
  have htail : rows.tail.length = kRows - 1 := by rw [List.length_tail, hlen]
  rw [bufferOf_concat_nil]
  funext i j
  by_cases hi : i = ⟨kRows - 1, by decide⟩
  · rw [hi, Function.update_self]
    unfold bufferOf
    rw [getD_of_length_le (show rows.tail.length ≤ kRows - 1 by omega)]
    rfl
  · have hne : i.val ≠ kRows - 1 := fun h => hi (Fin.ext h)
    have hlt := i.isLt
    rw [Function.update_of_ne hi]
    unfold scrolled bufferOf
    rw [if_pos (by omega), List.getD_eq_getElem?_getD, List.getD_eq_getElem?_getD,
      List.getD_eq_getElem?_getD, List.getD_eq_getElem?_getD, List.getElem?_tail]

theorem screenWrites_tail (font : Font) (color : PixelColor) {rows : List (List (BitVec 8))}
    (hlen : rows.length = kRows) :
    screenWrites font color (rows.tail ++ [[]]) =
      (List.range (kRows - 1)).flatMap fun (i : ℕ) =>
        writeChars font 0 (16 * (i : ℤ)) (rows.getD (i + 1) []) color := by
  have htail : rows.tail.length = kRows - 1 := by rw [List.length_tail, hlen]
  have hbeyond : ∀ i : ℕ, kRows - 1 ≤ i →
      writeChars font 0 (16 * (i : ℤ)) (rows.tail.getD i []) color = [] := by
    intro i hi
    rw [getD_of_length_le (by omega), writeChars_nil]
  rw [screenWrites_concat_nil font color rows.tail (by rw [htail]; decide)]
  unfold screenWrites
  rw [flatMap_range_of_nil (Nat.sub_le kRows 1) hbeyond]
  apply List.flatMap_congr
  intro i _
  rw [List.getD_eq_getElem?_getD, List.getD_eq_getElem?_getD, List.getElem?_tail]

/-! ## One character -/

/-- `Newline` ends the row. -/
theorem newline_prints {w : W} (hwriter : con.writer = some w) (hshows : con.Shows layout)
    (hprintable : Printable layout) :
    ∃ con' writes, con.newline font = some (con', writes) ∧
      Prints font con con' layout layout.endRow writes := by
  have hvisible := Layout.visible_endRow (kRows - 1) layout
  have hlen := Layout.length_visible kRows layout
  have hrow := hshows.cursorRow
  rw [show kRows - 1 + 1 = kRows from rfl] at hvisible
  unfold newline
  by_cases hroom : con.cursorRow + 1 < kRows
  · -- there is a row below the cursor
    rw [if_pos (by omega)] at hvisible
    refine ⟨{ con with cursorColumn := 0, cursorRow := con.cursorRow + 1 }, [], if_pos hroom,
      ⟨?_, ?_, rfl⟩, ⟨rfl, rfl, rfl⟩, ?_⟩
    · rw [hvisible, bufferOf_concat_nil]
      exact hshows.buffer
    · rw [hvisible, List.length_append, List.length_singleton, ← hrow]
    · apply Redraws.of_append (fun w hw => absurd hw List.not_mem_nil)
      rw [hvisible, List.append_nil, screenWrites_concat_nil _ _ _ (by omega)]
  · -- the cursor is on the last row, and the rows scroll
    have hfull : (layout.visible kRows).length = kRows := by omega
    rw [if_neg (by rw [hfull]; decide)] at hvisible
    -- the loop draws what the rows moved up show
    have hloop := foldlM_scrollRow font hprintable.visible
      (show kRows - 1 < kRows by decide) con.fgColor (fillArea con.bgColor)
    rw [← hshows.buffer, ← screenWrites_tail font con.fgColor hfull] at hloop
    refine ⟨{ con with cursorColumn := 0, buffer := bufferOf (layout.endRow.visible kRows) },
      fillArea con.bgColor ++ screenWrites font con.fgColor (layout.endRow.visible kRows),
      ?_, ⟨rfl, ?_, rfl⟩, ⟨rfl, rfl, rfl⟩, ?_⟩
    · rw [if_neg hroom, hwriter, hvisible, ← scrolled_clear hfull]
      simp only [Option.bind_eq_bind, Option.bind_some, hloop]
    · show con.cursorRow + 1 = _
      rw [hrow, hvisible, List.length_append, List.length_singleton, List.length_tail, hfull]
      rfl
    · exact Redraws.of_fill hprintable.endRow.visible rfl

/-- A character for which the row has room is stored behind the others and drawn in its
cell. -/
theorem putChar_append {w : W} (hwriter : con.writer = some w) (hshows : con.Shows layout)
    {c : BitVec 8} (hc : c ≠ newlineChar) (hroom : layout.current.length < kColumns) :
    ∃ con' writes, con.putChar font c = some (con', writes) ∧
      Prints font con con' layout (layout.append c) writes := by
  -- the visible rows end with the current one, which is the one under the cursor
  have hvisible := Layout.visible_succ (kRows - 1) layout
  have hvisible' := Layout.visible_succ (kRows - 1) (layout.append c)
  rw [show kRows - 1 + 1 = kRows from rfl] at hvisible hvisible'
  simp only [Layout.append] at hvisible'
  generalize layout.complete.drop (layout.complete.length - (kRows - 1)) = above
    at hvisible hvisible'
  have hnew : (layout.append c).visible kRows = above ++ [layout.current ++ [c]] := hvisible'
  have hlen := Layout.length_visible kRows layout
  obtain ⟨writer, fgColor, bgColor, buffer, cursorRow, cursorColumn⟩ := con
  obtain ⟨hbuffer, hcursor, hcolumn⟩ := hshows
  simp only at hwriter hbuffer hcursor hcolumn
  rw [hvisible, List.length_append, List.length_singleton] at hcursor hlen
  have habove : above.length < kRows := by omega
  have hcurrent : layout.current.length < kColumns + 1 := by omega
  have hrow : cursorRow = above.length := by omega
  have hend : ¬ (c = newlineChar ∨ kColumns ≤ layout.current.length) := by
    rw [not_or]
    exact ⟨hc, by omega⟩
  have hstore := bufferOf_concat_concat above layout.current c habove hcurrent
  have hscreen : screenWrites font fgColor ((layout.append c).visible kRows) =
      screenWrites font fgColor (layout.visible kRows) ++
        writeAscii font (8 * (layout.current.length : ℤ)) (16 * (above.length : ℤ)) c
          fgColor := by
    rw [hnew, hvisible, screenWrites_concat _ _ _ _ habove, screenWrites_concat _ _ _ _ habove,
      writeChars_concat, Int.zero_add, List.append_assoc]
  subst hrow hcolumn hbuffer hwriter
  -- the new row is the old one and one more character, drawn behind the others
  refine ⟨⟨some w, fgColor, bgColor, bufferOf ((layout.append c).visible kRows), above.length,
    layout.current.length + 1⟩, _, ?_, ⟨rfl, ?_, ?_⟩, ⟨rfl, rfl, rfl⟩,
    Redraws.of_append ?_ hscreen⟩
  · unfold putChar
    rw [if_neg hend]
    simp only [Option.bind_eq_bind, Option.bind_some, dif_pos (And.intro habove hcurrent),
      hvisible, hstore, hnew]
  · rw [hnew, List.length_append, List.length_singleton]
  · show layout.current.length + 1 = _
    rw [Layout.append, List.length_append, List.length_singleton]
  · exact fun w hw => writeAscii_area habove hroom hw

/-- The body of the loop of `PutString`. -/
theorem putChar_prints {w : W} (hwriter : con.writer = some w) (hshows : con.Shows layout)
    (hprintable : Printable layout) {c : BitVec 8} (hc : c ≠ 0) :
    ∃ con' writes, con.putChar font c = some (con', writes) ∧
      Prints font con con' layout (layout.consoleStep kColumns newlineChar c) writes ∧
      Printable (layout.consoleStep kColumns newlineChar c) := by
  unfold Layout.consoleStep
  by_cases hend : c = newlineChar ∨ kColumns ≤ layout.current.length
  · rw [if_pos hend]
    obtain ⟨con', writes, hcall, hprints⟩ := newline_prints font hwriter hshows hprintable
    refine ⟨con', writes, ?_, hprints, hprintable.endRow⟩
    unfold putChar
    rw [if_pos (by rw [hshows.cursorColumn]; exact hend)]
    exact hcall
  · rw [if_neg hend]
    rw [not_or] at hend
    have hroom : layout.current.length < kColumns := by omega
    obtain ⟨con', writes, hcall, hprints⟩ := putChar_append font hwriter hshows hend.1 hroom
    exact ⟨con', writes, hcall, hprints, hprintable.append hc hroom⟩

/-! ## A string -/

/-- `PutString` carries the layout through the string, by induction on it. -/
theorem putString_prints {w : W} (hwriter : con.writer = some w) (hshows : con.Shows layout)
    (hprintable : Printable layout) {s : List (BitVec 8)} (hs : 0 ∉ s) :
    ∃ con' writes, con.putString font s = some (con', writes) ∧
      Prints font con con' layout (s.foldl (Layout.consoleStep kColumns newlineChar) layout)
        writes ∧
      Printable (s.foldl (Layout.consoleStep kColumns newlineChar) layout) := by
  induction s generalizing con layout with
  | nil => exact ⟨con, [], rfl, ⟨hshows, ⟨rfl, rfl, rfl⟩, Redraws.refl⟩, hprintable⟩
  | cons c s ih =>
    rw [List.mem_cons, not_or] at hs
    obtain ⟨con₁, writes, hcall, hprints, hprintable₁⟩ :=
      putChar_prints font hwriter hshows hprintable (Ne.symm hs.1)
    obtain ⟨con', rest, hcall', hprints', hprintable'⟩ :=
      ih (hprints.setup.writer.trans hwriter) hprints.shows hprintable₁ hs.2
    -- the rest of the string is printed in the same colours
    have hsetup := hprints.setup
    have hredraws := hprints'.redraws
    rw [hsetup.fgColor, hsetup.bgColor] at hredraws
    refine ⟨con', writes ++ rest, ?_, ⟨hprints'.shows, ?_, hprints.redraws.trans hredraws⟩,
      hprintable'⟩
    · unfold putString
      simp only [hcall, hcall', Option.bind_eq_bind, Option.bind_some]
    · exact ⟨hprints'.setup.writer.trans hsetup.writer, hprints'.setup.fgColor.trans hsetup.fgColor,
        hprints'.setup.bgColor.trans hsetup.bgColor⟩

end Console
end TommyOS
