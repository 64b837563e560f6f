import TommyOS.Font.Font

/-!
# The console

`Console` over a type `W` of writers. An operation returns the console and the `Write` calls
it makes on the current writer; it is `none` where the source would use a null writer or
leave `buffer_`. `PutString` ends with `LayerManager::Draw`, which draws on the writer of
the layer manager and is not part of the console.
-/

namespace TommyOS
namespace Console

def kRows : ℕ := 25

def kColumns : ℕ := 80

/-- `buffer_`. -/
abbrev Buffer := Fin kRows → Fin (kColumns + 1) → BitVec 8

/-- The character `'\n'`. -/
def newlineChar : BitVec 8 := 10

end Console

open Console in
structure Console (W : Type) where
  writer : Option W
  fgColor : PixelColor
  bgColor : PixelColor
  buffer : Buffer
  cursorRow : ℕ
  cursorColumn : ℕ

namespace Console

variable {W : Type}

/-- The constructor. -/
def new (fgColor bgColor : PixelColor) : Console W where
  writer := none
  fgColor := fgColor
  bgColor := bgColor
  buffer := fun _ _ => 0
  cursorRow := 0
  cursorColumn := 0

/-! ## `Newline` -/

/-- The loops that fill the area of the console. -/
def fillArea (bgColor : PixelColor) : List PixelWrite :=
  (List.range (16 * kRows)).flatMap fun (y : ℕ) =>
    (List.range (8 * kColumns)).map fun (x : ℕ) => (⟨x, y⟩, bgColor)

/-- One iteration of the scroll: `memcpy` from the row below, and `WriteString`. -/
def scrollRow (font : Font) (fgColor : PixelColor) (st : Buffer × List PixelWrite) (row : ℕ) :
    Option (Buffer × List PixelWrite) :=
  if h : row + 1 < kRows then
    let line := st.1 ⟨row + 1, h⟩
    let buffer := Function.update st.1 ⟨row, Nat.lt_of_succ_lt h⟩ line
    (writeString font 0 (16 * (row : ℤ)) line fgColor).map fun writes =>
      (buffer, st.2 ++ writes)
  else
    none

/-- `Newline`. -/
def newline (font : Font) (con : Console W) : Option (Console W × List PixelWrite) :=
  let con := { con with cursorColumn := 0 }
  if con.cursorRow + 1 < kRows then
    some ({ con with cursorRow := con.cursorRow + 1 }, [])
  else do
    let _ ← con.writer
    let (buffer, writes) ← (List.range (kRows - 1)).foldlM (scrollRow font con.fgColor)
      (con.buffer, fillArea con.bgColor)
    let lastRow : Fin kRows := ⟨kRows - 1, by decide⟩
    some ({ con with buffer := Function.update buffer lastRow fun _ => 0 }, writes)

/-! ## `PutString`, `SetWriter` and `Refresh` -/

/-- The body of the loop of `PutString`. -/
def putChar (font : Font) (con : Console W) (c : BitVec 8) :
    Option (Console W × List PixelWrite) :=
  if c = newlineChar ∨ kColumns ≤ con.cursorColumn then
    con.newline font
  else do
    -- the writer is called, so it must not be null
    let _ ← con.writer
    let writes := writeAscii font (8 * (con.cursorColumn : ℤ)) (16 * (con.cursorRow : ℤ)) c
      con.fgColor
    if h : con.cursorRow < kRows ∧ con.cursorColumn < kColumns + 1 then
      let row : Fin kRows := ⟨con.cursorRow, h.1⟩
      let column : Fin (kColumns + 1) := ⟨con.cursorColumn, h.2⟩
      let buffer := Function.update con.buffer row (Function.update (con.buffer row) column c)
      some ({ con with buffer := buffer, cursorColumn := con.cursorColumn + 1 }, writes)
    else
      -- the assignment would leave `buffer_`
      none

/-- `PutString`, on the characters of the string. -/
def putString (font : Font) (con : Console W) :
    List (BitVec 8) → Option (Console W × List PixelWrite)
  | [] => some (con, [])
  | c :: s => do
    let (con, writes) ← con.putChar font c
    let (con, rest) ← con.putString font s
    some (con, writes ++ rest)

/-- `Refresh`. -/
def refresh (font : Font) (con : Console W) : Option (List PixelWrite) := do
  let _ ← con.writer
  let rows ← (List.finRange kRows).mapM fun row =>
    writeString font 0 (16 * (row.val : ℤ)) (con.buffer row) con.fgColor
  some rows.flatten

/-- `SetWriter`. -/
def setWriter [DecidableEq W] (font : Font) (con : Console W) (writer : Option W) :
    Option (Console W × List PixelWrite) :=
  if writer = con.writer then
    some (con, [])
  else
    let con := { con with writer := writer }
    (con.refresh font).map fun writes => (con, writes)

end Console

end TommyOS
