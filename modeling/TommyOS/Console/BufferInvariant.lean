import TommyOS.Console.ConsoleRuns

/-!
# The buffer while text is printed

The states that a console passes through while `PutString` runs, one for each assignment and
each call of `memcpy` and `memset`, and what all of them have in common. Each row of
`buffer_` is a string that ends inside the row, so `Newline` and `Refresh` read no further.
-/

namespace TommyOS
namespace Console

variable {W : Type}

/-! ## The states -/

/-- The `memcpy` of `Newline` into a row. -/
def copyRow (buffer : Buffer) (row : Fin (kRows - 1)) : Buffer :=
  Function.update buffer (row.castLE (by decide)) (buffer row.succ)

theorem lastRow_lt : kRows - 1 < kRows := by decide

/-- The states of `Newline` after each change of the console. -/
def newlineStates (con : Console W) : List (Console W) :=
  let con := { con with cursorColumn := 0 }
  if con.cursorRow + 1 < kRows then
    [con, { con with cursorRow := con.cursorRow + 1 }]
  else
    let scrolled := (List.finRange (kRows - 1)).scanl copyRow con.buffer
    let last := (List.finRange (kRows - 1)).foldl copyRow con.buffer
    scrolled.map (fun buffer => { con with buffer := buffer }) ++
      [{ con with buffer := Function.update last ⟨kRows - 1, lastRow_lt⟩ fun _ => 0 }]

/-- The states of the body of the loop of `PutString`. -/
def putCharStates (con : Console W) (c : BitVec 8) : List (Console W) :=
  if c = newlineChar ∨ kColumns ≤ con.cursorColumn then
    con.newlineStates
  else if hrow : con.cursorRow < kRows then
    if hcolumn : con.cursorColumn < kColumns + 1 then
      let row : Fin kRows := ⟨con.cursorRow, hrow⟩
      let column : Fin (kColumns + 1) := ⟨con.cursorColumn, hcolumn⟩
      let con := { con with
        buffer := Function.update con.buffer row (Function.update (con.buffer row) column c) }
      [con, { con with cursorColumn := con.cursorColumn + 1 }]
    else
      []
  else
    []

/-- The states of `PutString`, from the one it is called in. -/
def putStringStates (font : Font) (con : Console W) : List (BitVec 8) → List (Console W)
  | [] => [con]
  | c :: s =>
    con :: con.putCharStates c ++
      match con.putChar font c with
      | none => []
      | some (con, _) => putStringStates font con s

/-- The states of a sequence of calls. -/
def putStringsStates (font : Font) (con : Console W) : List CString → List (Console W)
  | [] => [con]
  | s :: calls =>
    con.putStringStates font s.chars ++
      match con.putString font s.chars with
      | none => []
      | some (con, _) => putStringsStates font con calls

/-! ## The invariant -/

/-- The first `n` characters of a row are not NUL, and all others are. -/
def TextOf (row : Fin (kColumns + 1) → BitVec 8) (n : ℕ) : Prop :=
  ∀ j, row j = 0 ↔ n ≤ j.val

/-- A text of at most 80 characters, with NUL from there to the end of the row. -/
def RowTerminated (row : Fin (kColumns + 1) → BitVec 8) : Prop := ∃ n ≤ kColumns, TextOf row n

/-- What holds of every state. -/
structure BufferInvariant (con : Console W) : Prop where
  cursorRow : con.cursorRow < kRows
  cursorColumn : con.cursorColumn ≤ kColumns
  rows : ∀ i, RowTerminated (con.buffer i)
  below : ∀ i : Fin kRows, con.cursorRow < i.val → TextOf (con.buffer i) 0

/-- Between two characters the cursor stands behind the text of its row. -/
structure AtCursor (con : Console W) : Prop extends BufferInvariant con where
  current : TextOf (con.buffer ⟨con.cursorRow, cursorRow⟩) con.cursorColumn

theorem textOf_zero : TextOf (fun _ => 0) 0 := fun _ => iff_of_true rfl (Nat.zero_le _)

theorem TextOf.rowTerminated {row : Fin (kColumns + 1) → BitVec 8} (h : TextOf row 0) :
    RowTerminated row := ⟨0, Nat.zero_le _, h⟩

/-- A character that is stored behind the text makes it longer. -/
theorem TextOf.update {row : Fin (kColumns + 1) → BitVec 8} {column : Fin (kColumns + 1)}
    (h : TextOf row column.val) {c : BitVec 8} (hc : c ≠ 0) :
    TextOf (Function.update row column c) (column.val + 1) := by
  intro j
  by_cases hj : j = column
  · rw [hj, Function.update_self]
    exact iff_of_false hc (by omega)
  · have hne : j.val ≠ column.val := fun heq => hj (Fin.ext heq)
    rw [Function.update_of_ne hj, h j]
    omega

/-- `WriteString` stops inside such a row. -/
theorem RowTerminated.cString_isSome {row : Fin (kColumns + 1) → BitVec 8}
    (h : RowTerminated row) : (cString row).isSome = true := by
  obtain ⟨n, hn, htext⟩ := h
  have hmem : 0 ∈ List.ofFn row := by
    rw [List.mem_ofFn]
    exact ⟨⟨n, by omega⟩, (htext _).mpr (le_refl n)⟩
  unfold cString
  rw [if_pos hmem]
  rfl

theorem RowTerminated.exists_writeString {row : Fin (kColumns + 1) → BitVec 8}
    (h : RowTerminated row) (font : Font) (x y : ℤ) (color : PixelColor) :
    ∃ writes, writeString font x y row color = some writes := by
  obtain ⟨chars, hchars⟩ := Option.isSome_iff_exists.mp h.cString_isSome
  refine ⟨writeChars font x y chars color, ?_⟩
  unfold writeString
  rw [hchars]
  rfl

/-! ## Scrolling -/

theorem rowTerminated_copyRow {buffer : Buffer} (h : ∀ i, RowTerminated (buffer i))
    (row : Fin (kRows - 1)) : ∀ i, RowTerminated (copyRow buffer row i) := by
  intro i
  unfold copyRow
  by_cases hi : i = row.castLE (by decide)
  · rw [hi, Function.update_self]
    exact h row.succ
  · rw [Function.update_of_ne hi]
    exact h i

/-- After each copy all rows are terminated. -/
theorem rowTerminated_scanl {buffer : Buffer} (h : ∀ i, RowTerminated (buffer i))
    (rows : List (Fin (kRows - 1))) :
    (∀ b ∈ rows.scanl copyRow buffer, ∀ i, RowTerminated (b i)) ∧
      ∀ i, RowTerminated (rows.foldl copyRow buffer i) := by
  induction rows generalizing buffer with
  | nil =>
    refine ⟨fun b hb => ?_, h⟩
    rw [List.scanl_nil, List.mem_singleton] at hb
    rw [hb]
    exact h
  | cons row rows ih =>
    obtain ⟨hscan, hfold⟩ := ih (rowTerminated_copyRow h row)
    refine ⟨fun b hb => ?_, hfold⟩
    rw [List.scanl_cons, List.mem_cons] at hb
    rcases hb with hb | hb
    · rw [hb]
      exact h
    · exact hscan b hb

/-- The scroll of `Newline` goes through on such a buffer. -/
theorem foldlM_scrollRow_eq (font : Font) (fgColor : PixelColor) {buffer : Buffer}
    (h : ∀ i, RowTerminated (buffer i)) (rows : List (Fin (kRows - 1)))
    (writes : List PixelWrite) :
    ∃ writes', (rows.map Fin.val).foldlM (scrollRow font fgColor) (buffer, writes) =
      some (rows.foldl copyRow buffer, writes') := by
  induction rows generalizing buffer writes with
  | nil => exact ⟨writes, rfl⟩
  | cons row rows ih =>
    obtain ⟨drawn, hdrawn⟩ := (h row.succ).exists_writeString font 0 (16 * (row.val : ℤ)) fgColor
    have hrow : row.val + 1 < kRows := by
      have := row.isLt
      omega
    have hstep : scrollRow font fgColor (buffer, writes) row.val =
        some (copyRow buffer row, writes ++ drawn) := by
      unfold scrollRow
      rw [dif_pos hrow]
      show Option.map _ (writeString font 0 _ (buffer row.succ) fgColor) = _
      rw [hdrawn]
      rfl
    obtain ⟨writes', hrest⟩ := ih (rowTerminated_copyRow h row) (writes ++ drawn)
    refine ⟨writes', ?_⟩
    rw [List.map_cons, List.foldlM_cons, hstep]
    exact hrest

/-! ## One character -/

/-- A call that goes through: it passes through some states, in all of which the invariant
holds, and ends in the last of them with the cursor behind the text of its row. -/
structure Passes (con con' : Console W) (states : List (Console W)) : Prop where
  invariant : ∀ st ∈ states, BufferInvariant st ∧ st.writer = con.writer
  last : states.getLast? = some con'
  atCursor : AtCursor con'
  writer : con'.writer = con.writer

theorem not_below {row : ℕ} (hlast : row = kRows - 1) (i : Fin kRows) : ¬ row < i.val := by
  have := i.isLt
  omega

/-- Clearing the last row, where the cursor is, puts the cursor in front of an empty row. -/
theorem BufferInvariant.atCursor_cleared {con : Console W} (h : BufferInvariant con)
    (hlast : con.cursorRow = kRows - 1) {scrolled : Buffer}
    (hrows : ∀ i, RowTerminated (scrolled i)) :
    AtCursor { con with
      cursorColumn := 0
      buffer := Function.update scrolled ⟨kRows - 1, lastRow_lt⟩ fun _ => 0 } := by
  have hcleared : ∀ i, RowTerminated
      (Function.update scrolled ⟨kRows - 1, lastRow_lt⟩ (fun _ => 0) i) := by
    intro i
    by_cases hi : i = ⟨kRows - 1, lastRow_lt⟩
    · -- a row of zeros is terminated at once
      rw [hi, Function.update_self]
      exact textOf_zero.rowTerminated
    · rw [Function.update_of_ne hi]
      exact hrows i
  refine ⟨⟨h.cursorRow, Nat.zero_le _, hcleared, fun i hi => absurd hi (not_below hlast i)⟩, ?_⟩
  have hrow : (⟨con.cursorRow, h.cursorRow⟩ : Fin kRows) = ⟨kRows - 1, lastRow_lt⟩ := Fin.ext hlast
  show TextOf (Function.update scrolled _ _ ⟨con.cursorRow, h.cursorRow⟩) 0
  rw [hrow, Function.update_self]
  exact textOf_zero

theorem newline_passes (font : Font) {con : Console W} {w : W} (hwriter : con.writer = some w)
    (h : BufferInvariant con) :
    ∃ con' writes, con.newline font = some (con', writes) ∧ Passes con con' con.newlineStates := by
  have hstart : BufferInvariant { con with cursorColumn := 0 } :=
    ⟨h.cursorRow, Nat.zero_le _, h.rows, h.below⟩
  unfold newline newlineStates
  dsimp only
  by_cases hroom : con.cursorRow + 1 < kRows
  · -- the row below is empty
    have hnext : AtCursor { con with cursorColumn := 0, cursorRow := con.cursorRow + 1 } := by
      refine ⟨⟨hroom, Nat.zero_le _, h.rows, fun i hi => h.below i (Nat.lt_of_succ_lt hi)⟩, ?_⟩
      exact h.below ⟨con.cursorRow + 1, hroom⟩ (Nat.lt_succ_self _)
    refine ⟨_, [], if_pos hroom, ?_, ?_, hnext, rfl⟩
    · rw [if_pos hroom]
      intro st hst
      rcases List.mem_cons.mp hst with hst | hst
      · rw [hst]
        exact ⟨hstart, rfl⟩
      · rw [List.mem_singleton.mp hst]
        exact ⟨hnext.toBufferInvariant, rfl⟩
    · rw [if_pos hroom]
      rfl
  · -- the cursor stays on the last row, below which there is none
    have hlast : con.cursorRow = kRows - 1 := by
      have := h.cursorRow
      omega
    -- the rows keep their terminators after each copy
    obtain ⟨hscan, hfold⟩ := rowTerminated_scanl h.rows (List.finRange (kRows - 1))
    obtain ⟨writes, hloop⟩ := foldlM_scrollRow_eq font con.fgColor h.rows
      (List.finRange (kRows - 1)) (fillArea con.bgColor)
    rw [List.map_coe_finRange_eq_range] at hloop
    generalize (List.finRange (kRows - 1)).foldl copyRow con.buffer = scrolled at hfold hloop ⊢
    generalize (List.finRange (kRows - 1)).scanl copyRow con.buffer = buffers at hscan ⊢
    have hend := h.atCursor_cleared hlast hfold
    refine ⟨_, writes, ?_, ?_, ?_, hend, rfl⟩
    · rw [if_neg hroom, hwriter]
      simp only [Option.bind_eq_bind, Option.bind_some, hloop]
    · rw [if_neg hroom]
      intro st hst
      rcases List.mem_append.mp hst with hst | hst
      · obtain ⟨buffer, hbuffer, hst⟩ := List.mem_map.mp hst
        rw [← hst]
        exact ⟨⟨h.cursorRow, Nat.zero_le _, hscan buffer hbuffer,
          fun i hi => absurd hi (not_below hlast i)⟩, rfl⟩
      · rw [List.mem_singleton.mp hst]
        exact ⟨hend.toBufferInvariant, rfl⟩
    · rw [if_neg hroom, List.getLast?_concat]

/-- Storing a character behind the text of the current row. -/
theorem AtCursor.store {con : Console W} (h : AtCursor con)
    (hroom : con.cursorColumn < kColumns) {c : BitVec 8} (hc : c ≠ 0) :
    let row : Fin kRows := ⟨con.cursorRow, h.cursorRow⟩
    let column : Fin (kColumns + 1) := ⟨con.cursorColumn, Nat.lt_succ_of_lt hroom⟩
    let buffer := Function.update con.buffer row (Function.update (con.buffer row) column c)
    BufferInvariant { con with buffer := buffer } ∧
      AtCursor { con with buffer := buffer, cursorColumn := con.cursorColumn + 1 } := by
  intro row column buffer
  have htext : TextOf (buffer row) (con.cursorColumn + 1) := by
    show TextOf (Function.update con.buffer row _ row) _
    rw [Function.update_self]
    exact TextOf.update h.current hc
  -- no other row is stored to
  have hother : ∀ i, i ≠ row → buffer i = con.buffer i := fun i hi => Function.update_of_ne hi _ _
  have hrows : ∀ i, RowTerminated (buffer i) := by
    intro i
    by_cases hi : i = row
    · rw [hi]
      exact ⟨con.cursorColumn + 1, hroom, htext⟩
    · rw [hother i hi]
      exact h.rows i
  have hbelow : ∀ i : Fin kRows, con.cursorRow < i.val → TextOf (buffer i) 0 := by
    intro i hi
    rw [hother i fun heq => absurd hi (by rw [heq]; exact Nat.lt_irrefl _)]
    exact h.below i hi
  exact ⟨⟨h.cursorRow, Nat.le_of_lt hroom, hrows, hbelow⟩,
    ⟨⟨h.cursorRow, hroom, hrows, hbelow⟩, htext⟩⟩

theorem putChar_passes (font : Font) {con : Console W} {w : W} (hwriter : con.writer = some w)
    (h : AtCursor con) {c : BitVec 8} (hc : c ≠ 0) :
    ∃ con' writes, con.putChar font c = some (con', writes) ∧
      Passes con con' (con.putCharStates c) := by
  unfold putChar putCharStates
  by_cases hend : c = newlineChar ∨ kColumns ≤ con.cursorColumn
  · rw [if_pos hend, if_pos hend]
    exact newline_passes font hwriter h.toBufferInvariant
  · have hroom : con.cursorColumn < kColumns := by
      rw [not_or] at hend
      omega
    have hinside : con.cursorRow < kRows ∧ con.cursorColumn < kColumns + 1 :=
      ⟨h.cursorRow, Nat.lt_succ_of_lt hroom⟩
    obtain ⟨hstored, hnext⟩ := h.store hroom hc
    rw [if_neg hend, if_neg hend, dif_pos hinside, dif_pos hinside.1, dif_pos hinside.2]
    refine ⟨_, writeAscii font (8 * (con.cursorColumn : ℤ)) (16 * (con.cursorRow : ℤ)) c
      con.fgColor, ?_, ?_, rfl, hnext, rfl⟩
    · rw [hwriter]
      rfl
    · intro st hst
      rcases List.mem_cons.mp hst with hst | hst
      · rw [hst]
        exact ⟨hstored, rfl⟩
      · rw [List.mem_singleton.mp hst]
        exact ⟨hnext.toBufferInvariant, rfl⟩

/-! ## Strings -/

theorem Passes.self {con : Console W} (h : AtCursor con) : Passes con con [con] :=
  ⟨fun st hst => by rw [List.mem_singleton.mp hst]; exact ⟨h.toBufferInvariant, rfl⟩, rfl, h, rfl⟩

/-- One part of a run after the other. -/
theorem Passes.trans {con con₁ con' : Console W} {states states' : List (Console W)}
    (h : Passes con con₁ states) (h' : Passes con₁ con' states') :
    Passes con con' (states ++ states') := by
  refine ⟨fun st hst => ?_, ?_, h'.atCursor, h'.writer.trans h.writer⟩
  · rcases List.mem_append.mp hst with hst | hst
    · exact h.invariant st hst
    · obtain ⟨hinvariant, hwriter⟩ := h'.invariant st hst
      exact ⟨hinvariant, hwriter.trans h.writer⟩
  · rw [List.getLast?_append, h'.last]
    rfl

theorem putString_passes (font : Font) {con : Console W} {w : W} (hwriter : con.writer = some w)
    (h : AtCursor con) {s : List (BitVec 8)} (hs : 0 ∉ s) :
    ∃ con' writes, con.putString font s = some (con', writes) ∧
      Passes con con' (con.putStringStates font s) := by
  induction s generalizing con with
  | nil => exact ⟨con, [], rfl, .self h⟩
  | cons c s ih =>
    rw [List.mem_cons, not_or] at hs
    obtain ⟨con₁, writes, hcall, hpasses⟩ := putChar_passes font hwriter h (Ne.symm hs.1)
    obtain ⟨con', rest, hcall', hpasses'⟩ :=
      ih (hpasses.writer.trans hwriter) hpasses.atCursor hs.2
    refine ⟨con', writes ++ rest, ?_, ?_⟩
    · unfold putString
      simp only [hcall, hcall', Option.bind_eq_bind, Option.bind_some]
    · unfold putStringStates
      rw [hcall]
      exact ((Passes.self h).trans hpasses).trans hpasses'

theorem putStrings_passes (font : Font) {con : Console W} {w : W} (hwriter : con.writer = some w)
    (h : AtCursor con) (calls : List CString) :
    ∃ con', con.putStrings font calls = some con' ∧
      Passes con con' (con.putStringsStates font calls) := by
  induction calls generalizing con with
  | nil => exact ⟨con, rfl, .self h⟩
  | cons s calls ih =>
    obtain ⟨con₁, writes, hcall, hpasses⟩ := putString_passes font hwriter h s.noNul
    obtain ⟨con', hcalls, hpasses'⟩ := ih (hpasses.writer.trans hwriter) hpasses.atCursor
    refine ⟨con', ?_, ?_⟩
    · unfold putStrings
      rw [List.foldlM_cons, hcall]
      exact hcalls
    · unfold putStringsStates
      rw [hcall]
      exact hpasses.trans hpasses'

/-- `Refresh` goes through on such a buffer. -/
theorem BufferInvariant.exists_refresh {con : Console W} (h : BufferInvariant con) (font : Font)
    {w : W} (hwriter : con.writer = some w) : ∃ writes, con.refresh font = some writes := by
  choose drawn hdrawn using fun row : Fin kRows =>
    (h.rows row).exists_writeString font 0 (16 * (row.val : ℤ)) con.fgColor
  have hrows : (fun row : Fin kRows =>
      writeString font 0 (16 * (row.val : ℤ)) (con.buffer row) con.fgColor) =
      fun row => pure (drawn row) := funext hdrawn
  refine ⟨((List.finRange kRows).map drawn).flatten, ?_⟩
  unfold refresh
  rw [hrows, List.mapM_pure, hwriter]
  rfl

/-- The constructor leaves an empty buffer. -/
theorem new_atCursor (fgColor bgColor : PixelColor) (writer : Option W) :
    AtCursor { (new fgColor bgColor : Console W) with writer := writer } := by
  refine ⟨⟨?_, Nat.zero_le _, fun i => textOf_zero.rowTerminated, fun i _ => textOf_zero⟩,
    textOf_zero⟩
  show 0 < kRows
  decide

/-- The buffer invariant: with a writer set, every sequence of `PutString` calls goes through,
and in all states, also inside `Newline`, the cursor is inside the buffer, every row is
terminated, the rows below the cursor are empty, and `Refresh` stops inside each row. -/
theorem putStrings_bufferInvariant (font : Font) (fgColor bgColor : PixelColor) (writer : W)
    (calls : List CString) :
    let con := { (new fgColor bgColor : Console W) with writer := some writer }
    ∃ con', con.putStrings font calls = some con' ∧
      (con.putStringsStates font calls).getLast? = some con' ∧
      ∀ st ∈ con.putStringsStates font calls, BufferInvariant st ∧
        (∀ i, (cString (st.buffer i)).isSome = true) ∧
        ∃ writes, st.refresh font = some writes := by
  intro con
  obtain ⟨con', hcalls, hpasses⟩ :=
    putStrings_passes font (rfl : con.writer = some writer)
      (new_atCursor fgColor bgColor (some writer)) calls
  refine ⟨con', hcalls, hpasses.last, fun st hst => ?_⟩
  obtain ⟨hinvariant, hwriter⟩ := hpasses.invariant st hst
  exact ⟨hinvariant, fun i => (hinvariant.rows i).cString_isSome,
    hinvariant.exists_refresh font hwriter⟩

end Console
end TommyOS
