import TommyOS.Graphics.Graphics

/-!
# The font and its drawing functions

The glyphs are linked into the kernel as a binary file, so the font is a parameter: the
bytes from `_binary_hankaku_bin_start` on, and the number that the linker stores in the
address of `_binary_hankaku_bin_size`. A `char` is signed.
-/

namespace TommyOS

structure Font where
  size : ℕ
  data : ℕ → BitVec 8

/-- `GetFont`: the offset of the glyph, `none` for `nullptr`. -/
def getFont (font : Font) (c : BitVec 8) : Option ℕ :=
  let index := (16 * c.signExtend 32).toNat
  if font.size ≤ index then none else some index

/-- `WriteAscii`. -/
def writeAscii (font : Font) (x y : ℤ) (c : BitVec 8) (color : PixelColor) : List PixelWrite :=
  match getFont font c with
  | none => []
  | some index =>
    (List.range 8).flatMap fun (dx : ℕ) =>
      (List.range 16).filterMap fun (dy : ℕ) =>
        if ((font.data (index + dy)).setWidth 32 <<< dx) &&& 0x80#32 ≠ 0 then
          some (⟨x + dx, y + dy⟩, color)
        else
          none

/-- The string in an array of `n` characters; `none` if it has no NUL, where reading it
leaves the array. -/
def cString {n : ℕ} (s : Fin n → BitVec 8) : Option (List (BitVec 8)) :=
  if 0 ∈ List.ofFn s then some ((List.ofFn s).takeWhile (· ≠ 0)) else none

/-- The loop of `WriteString` over the characters of the string. -/
def writeChars (font : Font) (x y : ℤ) (s : List (BitVec 8)) (color : PixelColor) :
    List PixelWrite :=
  s.zipIdx.flatMap fun ci => writeAscii font (x + 8 * (ci.2 : ℤ)) y ci.1 color

/-- `WriteString`. -/
def writeString (font : Font) (x y : ℤ) {n : ℕ} (s : Fin n → BitVec 8) (color : PixelColor) :
    Option (List PixelWrite) :=
  (cString s).map fun chars => writeChars font x y chars color

end TommyOS
