import TommyOS.Console.PutStringTheorems

/-!
# A console from its constructor on

`Refresh` and `SetWriter`, and sequences of `PutString` calls on a console that has just
been given a writer, as the kernel does right after constructing it. However the input is
cut into calls, the console shows the layout of the whole of it.
-/

namespace TommyOS

/-- A string as C passes it, without its terminating NUL. -/
structure CString where
  chars : List (BitVec 8)
  noNul : 0 ∉ chars

namespace Console

variable {W : Type} (font : Font) {con : Console W} {layout : Layout (BitVec 8)}

/-- `Refresh` draws all rows. -/
theorem refresh_eq {w : W} (hwriter : con.writer = some w) (hshows : con.Shows layout)
    (hprintable : Printable layout) :
    con.refresh font = some (screenWrites font con.fgColor (layout.visible kRows)) := by
  have hrow : (fun row : Fin kRows =>
      writeString font 0 (16 * (row.val : ℤ)) (con.buffer row) con.fgColor) =
      fun row => pure (writeChars font 0 (16 * (row.val : ℤ))
        ((layout.visible kRows).getD row.val []) con.fgColor) := by
    funext row
    rw [hshows.buffer]
    exact writeString_bufferOf font _ _ row (PrintableRow.getD hprintable.visible row)
  have hloop := List.flatMap_map Fin.val (fun i : ℕ =>
    writeChars font 0 (16 * (i : ℤ)) ((layout.visible kRows).getD i []) con.fgColor)
    (List.finRange kRows)
  rw [List.map_coe_finRange_eq_range] at hloop
  unfold refresh screenWrites
  rw [hrow, List.mapM_pure, hwriter, hloop, List.flatMap_def]
  rfl

theorem shows_new (fgColor bgColor : PixelColor) :
    (new fgColor bgColor : Console W).Shows Layout.empty := by
  refine ⟨?_, rfl, rfl⟩
  exact (bufferOf_concat_nil []).symm

theorem Shows.withWriter (h : con.Shows layout) (writer : Option W) :
    ({ con with writer := writer } : Console W).Shows layout :=
  ⟨h.buffer, h.cursorRow, h.cursorColumn⟩

theorem printable_empty : Printable Layout.empty := by
  intro row hrow
  rw [List.mem_singleton.mp hrow]
  exact printableRow_nil

/-- `SetWriter` with another writer: the console draws all rows on it. -/
theorem setWriter_eq [DecidableEq W] {w : W} (hne : con.writer ≠ some w)
    (hshows : con.Shows layout) (hprintable : Printable layout) :
    con.setWriter font (some w) = some ({ con with writer := some w },
      screenWrites font con.fgColor (layout.visible kRows)) := by
  unfold setWriter
  rw [if_neg (Ne.symm hne)]
  simp only [refresh_eq font rfl (hshows.withWriter (some w)) hprintable, Option.map_some]

/-! ## Sequences of calls -/

/-- The characters of a sequence of strings. -/
def inputOf (calls : List CString) : List (BitVec 8) := calls.flatMap CString.chars

/-- A sequence of `PutString` calls. -/
def putStrings (con : Console W) (calls : List CString) : Option (Console W) :=
  calls.foldlM (fun con s => (con.putString font s.chars).map Prod.fst) con

/-- The constructor, `SetWriter` and a sequence of `PutString` calls. -/
def printAll [DecidableEq W] (fgColor bgColor : PixelColor) (writer : W)
    (calls : List CString) : Option (Console W) := do
  let (con, _) ← (new fgColor bgColor).setWriter font (some writer)
  con.putStrings font calls

theorem putStrings_shows {w : W} (hwriter : con.writer = some w) (hshows : con.Shows layout)
    (hprintable : Printable layout) (calls : List CString) :
    ∃ con', con.putStrings font calls = some con' ∧
      con'.Shows ((inputOf calls).foldl (Layout.consoleStep kColumns newlineChar) layout) := by
  induction calls generalizing con layout with
  | nil => exact ⟨con, rfl, hshows⟩
  | cons s calls ih =>
    obtain ⟨con₁, writes, hcall, hprints, hprintable₁⟩ :=
      putString_prints font hwriter hshows hprintable s.noNul
    obtain ⟨con', hcalls, hshows'⟩ :=
      ih (hprints.setup.writer.trans hwriter) hprints.shows hprintable₁
    refine ⟨con', ?_, ?_⟩
    · unfold putStrings
      rw [List.foldlM_cons, hcall]
      exact hcalls
    · rw [inputOf, List.flatMap_cons, List.foldl_append]
      exact hshows'

/-- The console shows `Layout.console` of the input. -/
theorem printAll_shows [DecidableEq W] (fgColor bgColor : PixelColor) (writer : W)
    (calls : List CString) :
    ∃ con, printAll font fgColor bgColor writer calls = some con ∧
      con.Shows (Layout.console kColumns newlineChar (inputOf calls)) := by
  have hnew : (new fgColor bgColor : Console W).Shows Layout.empty := shows_new fgColor bgColor
  have hnone : (new fgColor bgColor : Console W).writer ≠ some writer :=
    (Option.some_ne_none writer).symm
  have hset := setWriter_eq font hnone hnew printable_empty
  obtain ⟨con, hcalls, hshows⟩ :=
    putStrings_shows font rfl (hnew.withWriter (some writer)) printable_empty calls
  refine ⟨con, ?_, hshows⟩
  unfold printAll
  rw [hset]
  exact hcalls

/-- However a prefix of a text is cut into calls, the console shows the reference layout of
it, exactly when every line of the text has at most 80 characters. -/
theorem printAll_reference_iff [DecidableEq W] (fgColor bgColor : PixelColor) (writer : W)
    (text : CString) :
    (∀ calls, inputOf calls <+: text.chars →
      ∃ con, printAll font fgColor bgColor writer calls = some con ∧
        con.Shows (Layout.reference kColumns newlineChar (inputOf calls))) ↔
      Layout.LinesFit kColumns newlineChar text.chars := by
  constructor
  · intro hall
    apply Layout.linesFit_of_length_current
    intro pre hpre
    have hnul : 0 ∉ pre := fun h => text.noNul (hpre.subset h)
    have hinput : inputOf [⟨pre, hnul⟩] = pre := by simp [inputOf]
    obtain ⟨con, hrun, hreference⟩ := hall [⟨pre, hnul⟩] (by rw [hinput]; exact hpre)
    obtain ⟨con', hrun', hconsole⟩ := printAll_shows font fgColor bgColor writer [⟨pre, hnul⟩]
    rw [hrun] at hrun'
    rw [← Option.some.inj hrun', hinput] at hconsole
    rw [hinput] at hreference
    rw [← hconsole.cursorColumn, ← hreference.cursorColumn]
  · intro hfit calls hcalls
    obtain ⟨con, hrun, hshows⟩ := printAll_shows font fgColor bgColor writer calls
    refine ⟨con, hrun, ?_⟩
    rw [(Layout.reference_eq_console (hfit.of_prefix hcalls)).1]
    exact hshows

/-- A line of 81 letters. -/
def longLine : CString where
  chars := List.replicate 81 0x61
  noNul := by decide

/-- A font whose glyphs are filled cells. -/
def filledFont : Font := ⟨4096, fun _ => 0xff⟩

/-- The last letter of a line of 81 is lost: the cursor is at the start of an empty row. -/
theorem printAll_longLine :
    ∃ con, printAll filledFont WHITE BLACK () [longLine] = some con ∧
      ¬ con.Shows (Layout.reference kColumns newlineChar (inputOf [longLine])) := by
  obtain ⟨con, hrun, hshows⟩ := printAll_shows filledFont WHITE BLACK () [longLine]
  refine ⟨con, hrun, fun hreference => ?_⟩
  have hcolumn := hshows.cursorColumn.symm.trans hreference.cursorColumn
  exact absurd hcolumn (by decide +kernel)

end Console
end TommyOS
