import TommyOS.Font.Font
import TommyOS.Lib.TextLines
import Mathlib.Data.List.GetD
import Mathlib.Data.List.TakeWhile
import Mathlib.Data.Set.Basic

/-!
# `makefont.py`

The encoder of the font. It turns a text into the binary file that is linked into the kernel,
one byte for each line that starts with a dot, an asterisk or an at sign. For a text of 256
glyphs the functions of the font draw what the text shows, for the characters they can name.
-/

namespace TommyOS
namespace Makefont

open TextLines

/-- The characters of `BITMAP_PATTERN`. -/
def isBitmap (c : Char) : Bool := c ∈ ['.', '*', '@']

/-- `BITMAP_PATTERN.match(line)`, the group that it matches. -/
def matchBitmap (line : List Char) : Option (List Char) :=
  let group := line.takeWhile isBitmap
  if group = [] then none else some group

/-- `bits`, for the characters of a group. -/
def bitsOf (group : List Char) : List ℕ := group.map fun x => if x = '.' then 0 else 1

/-- `reduce(lambda a, b: 2*a + b, bits)`; `none` for the exception on an empty list. -/
def reduceBits : List ℕ → Option ℕ
  | [] => none
  | bit :: bits => some (bits.foldl (fun a b => 2 * a + b) bit)

/-- `to_bytes(1)`; `none` for the exception on a number that does not fit. -/
def toByte (n : ℕ) : Option (BitVec 8) := if n < 256 then some (BitVec.ofNat 8 n) else none

/-- `compile`. -/
def compile (src : List Char) : Option (List (BitVec 8)) :=
  ((splitlines (lstrip src)).filterMap matchBitmap).mapM fun group => do
    toByte (← reduceBits (bitsOf group))

/-- The symbols that `objcopy` defines for `hankaku.bin`, and the memory behind its end. -/
def link (bin : List (BitVec 8)) (other : ℕ → BitVec 8) : Font where
  size := bin.length
  data := fun i => if h : i < bin.length then bin[i] else other i

/-! ## Font sources -/

/-- The lines of a text that belong to glyphs. -/
def glyphLines (src : List Char) : List (List Char) := (splitlines src).filter (startsWith isBitmap)

/-- A text of 256 glyphs of 16 lines of 8 characters, with other lines anywhere between them.
The text does not start with an indented glyph line, which `lstrip` would make one. -/
structure IsFontSource (src : List Char) : Prop where
  lines : (glyphLines src).length = 256 * 16
  columns : ∀ line ∈ glyphLines src, line.length = 8
  characters : ∀ line ∈ glyphLines src, ∀ c ∈ line, isBitmap c = true
  start : indented isBitmap src = false

/-- The character in line `dy` and column `dx` of a glyph. -/
def glyphChar (src : List Char) (glyph dy dx : ℕ) : Char :=
  ((glyphLines src).getD (16 * glyph + dy) []).getD dx '.'

/-- The pixels that the text shows for a glyph drawn at `(x, y)`. -/
def glyphPixels (src : List Char) (glyph : ℕ) (x y : ℤ) : Set (Vector2D ℤ) :=
  {p | ∃ dx dy : ℕ, dx < 8 ∧ dy < 16 ∧ glyphChar src glyph dy dx ≠ '.' ∧ p = ⟨x + dx, y + dy⟩}

/-! ## Bits -/

/-- The accumulator of the reduction stays above the bits that follow. -/
theorem testBit_foldl_above (bits : List ℕ) (a j : ℕ) (hbits : ∀ b ∈ bits, b < 2) :
    (bits.foldl (fun a b => 2 * a + b) a).testBit (bits.length + j) = a.testBit j := by
  induction bits generalizing a j with
  | nil => rw [List.length_nil, Nat.zero_add, List.foldl_nil]
  | cons b bits ih =>
    have hb : b < 2 := hbits b List.mem_cons_self
    have hlen : (b :: bits).length + j = bits.length + (j + 1) := by
      rw [List.length_cons]
      omega
    rw [List.foldl_cons, hlen, ih _ _ fun c hc => hbits c (List.mem_cons_of_mem b hc),
      Nat.testBit_succ]
    congr 1
    omega

/-- The first bit of the list is the highest of the number. -/
theorem testBit_foldl (bits : List ℕ) (a : ℕ) (hbits : ∀ b ∈ bits, b < 2) {i : ℕ}
    (hi : i < bits.length) :
    (bits.foldl (fun a b => 2 * a + b) a).testBit (bits.length - 1 - i) =
      decide (bits[i] = 1) := by
  -- the bits behind a bit shift it up once each
  induction bits generalizing a i with
  | nil => exact absurd hi (Nat.not_lt_zero i)
  | cons b bits ih =>
    have hb : b < 2 := hbits b List.mem_cons_self
    have hrest : ∀ c ∈ bits, c < 2 := fun c hc => hbits c (List.mem_cons_of_mem b hc)
    rw [List.foldl_cons]
    cases i with
    | zero =>
      have habove := testBit_foldl_above bits (2 * a + b) 0 hrest
      have hindex : (b :: bits).length - 1 - 0 = bits.length + 0 := by
        rw [List.length_cons]
        omega
      rw [hindex, habove, List.getElem_cons_zero, Nat.testBit_zero]
      congr 1
      apply propext
      omega
    | succ i =>
      rw [List.length_cons] at hi
      have hindex : (b :: bits).length - 1 - (i + 1) = bits.length - 1 - i := by
        rw [List.length_cons]
        omega
      rw [hindex, List.getElem_cons_succ]
      exact ih (2 * a + b) hrest (Nat.lt_of_succ_lt_succ hi)

theorem foldl_lt (bits : List ℕ) (a : ℕ) (hbits : ∀ b ∈ bits, b < 2) :
    bits.foldl (fun a b => 2 * a + b) a < (a + 1) * 2 ^ bits.length := by
  induction bits generalizing a with
  | nil => simp
  | cons b bits ih =>
    have hb : b < 2 := hbits b List.mem_cons_self
    rw [List.foldl_cons, List.length_cons, pow_succ]
    calc bits.foldl (fun a b => 2 * a + b) (2 * a + b)
        < (2 * a + b + 1) * 2 ^ bits.length :=
          ih _ fun c hc => hbits c (List.mem_cons_of_mem b hc)
      _ ≤ ((a + 1) * 2) * 2 ^ bits.length := Nat.mul_le_mul_right _ (by omega)
      _ = (a + 1) * (2 ^ bits.length * 2) := by rw [Nat.mul_assoc, Nat.mul_comm 2]

/-! ## The encoder -/

/-- The byte for a line. -/
def lineByte (line : List Char) : BitVec 8 :=
  BitVec.ofNat 8 ((bitsOf line).foldl (fun a b => 2 * a + b) 0)

theorem bitsOf_lt {line : List Char} : ∀ b ∈ bitsOf line, b < 2 := by
  intro b hb
  obtain ⟨c, -, hc⟩ := List.mem_map.mp hb
  rw [← hc]
  split
  · omega
  · omega

theorem foldl_bitsOf_lt {line : List Char} (hlen : line.length = 8) :
    (bitsOf line).foldl (fun a b => 2 * a + b) 0 < 256 := by
  have hlt := foldl_lt (bitsOf line) 0 bitsOf_lt
  rw [bitsOf, List.length_map, hlen] at hlt
  exact hlt

/-- A line of 8 characters is one byte. -/
theorem toByte_reduceBits {line : List Char} (hlen : line.length = 8) :
    (reduceBits (bitsOf line) >>= toByte) = some (lineByte line) := by
  have hlt := foldl_bitsOf_lt hlen
  unfold lineByte
  cases hbits : bitsOf line with
  | nil =>
    have hzero : (bitsOf line).length = 8 := by rw [bitsOf, List.length_map, hlen]
    rw [hbits] at hzero
    exact absurd hzero (by decide)
  | cons b bits =>
    rw [hbits, List.foldl_cons, Nat.mul_zero, Nat.zero_add] at hlt
    rw [List.foldl_cons, Nat.mul_zero, Nat.zero_add]
    show toByte _ = _
    exact if_pos hlt

/-- The leftmost character of a line is the highest bit of its byte. -/
theorem getLsbD_lineByte {line : List Char} (hlen : line.length = 8) {dx : ℕ} (hdx : dx < 8) :
    (lineByte line).getLsbD (7 - dx) = decide (line.getD dx '.' ≠ '.') := by
  have hbits : (bitsOf line).length = 8 := by rw [bitsOf, List.length_map, hlen]
  have htest := testBit_foldl (bitsOf line) 0 bitsOf_lt (i := dx) (by omega)
  have hindex : (bitsOf line).length - 1 - dx = 7 - dx := by omega
  have hget : line.getD dx '.' = (line)[dx] := by
    rw [List.getD_eq_getElem?_getD, List.getElem?_eq_getElem, Option.getD_some]
  rw [hindex] at htest
  unfold lineByte
  rw [BitVec.getLsbD_ofNat, htest, hget]
  simp [bitsOf, show 7 - dx < 8 by omega]

/-- A line is matched exactly when it starts with a bitmap character. -/
theorem filterMap_matchBitmap (lines : List (List Char)) :
    lines.filterMap matchBitmap =
      (lines.filter (startsWith isBitmap)).map (List.takeWhile isBitmap) := by
  induction lines with
  | nil => rfl
  | cons line lines ih =>
    cases line with
    | nil => exact ih
    | cons c line =>
      by_cases hc : isBitmap c
      · rw [List.filter_cons_of_pos (by exact hc), List.map_cons, ← ih]
        simp [matchBitmap, hc]
      · rw [List.filter_cons_of_neg (by exact hc), ← ih]
        simp [matchBitmap, hc]

/-- A loop that raises no exception. -/
theorem mapM_eq_some {α β : Type} {f : α → Option β} {g : α → β} {l : List α}
    (h : ∀ a ∈ l, f a = some (g a)) : l.mapM f = some (l.map g) := by
  induction l with
  | nil => rfl
  | cons a l ih =>
    rw [List.mapM_cons, h a List.mem_cons_self, ih fun b hb => h b (List.mem_cons_of_mem a hb)]
    rfl

theorem isSpace_not_isBitmap (c : Char) (hc : isSpace c = true) : isBitmap c = false := by
  by_contra hbitmap
  rw [Bool.not_eq_false] at hbitmap
  have hcases : c = '.' ∨ c = '*' ∨ c = '@' := by simpa [isBitmap] using hbitmap
  rcases hcases with h | h | h
  · exact absurd (h ▸ hc : isSpace '.' = true) (by decide)
  · exact absurd (h ▸ hc : isSpace '*' = true) (by decide)
  · exact absurd (h ▸ hc : isSpace '@' = true) (by decide)

/-- `compile` of a font source is the bytes of its glyph lines. -/
theorem compile_eq {src : List Char} (h : IsFontSource src) :
    compile src = some ((glyphLines src).map lineByte) := by
  have hgroups : (glyphLines src).map (List.takeWhile isBitmap) = glyphLines src := by
    rw [List.map_congr_left (g := id), List.map_id]
    intro line hline
    exact List.takeWhile_eq_self_iff.mpr (h.characters line hline)
  unfold compile
  rw [filterMap_matchBitmap, filter_splitlines_lstrip isSpace_not_isBitmap h.start]
  show ((glyphLines src).map _).mapM _ = _
  rw [hgroups]
  exact mapM_eq_some fun line hline => toByte_reduceBits (h.columns line hline)

/-! ## The drawing functions -/

/-- The test of `WriteAscii` picks one bit of the byte. -/
theorem shift_and_ne_zero (b : BitVec 8) {dx : ℕ} (hdx : dx < 8) :
    (b.setWidth 32 <<< dx) &&& 0x80#32 ≠ 0 ↔ b.getLsbD (7 - dx) = true := by
  have hmask : (0x80#32) = BitVec.twoPow 32 7 := by decide
  rw [hmask, BitVec.and_twoPow, BitVec.getLsbD_shiftLeft, BitVec.getLsbD_setWidth]
  have hlow : ¬ 7 < dx := by omega
  have hin : 7 - dx < 32 := by omega
  have hseven : 7 < 32 := by decide
  simp only [hlow, hin, hseven, decide_true, decide_false, Bool.not_false, Bool.true_and]
  by_cases hbit : b.getLsbD (7 - dx)
  · rw [if_pos hbit]
    exact iff_of_true (by decide) hbit
  · rw [if_neg hbit]
    exact iff_of_false (fun h => h rfl) hbit

/-- The pixels that `WriteAscii` writes. -/
theorem mem_writtenPixels_writeAscii {font : Font} {x y : ℤ} {c : BitVec 8} {color : PixelColor}
    {p : Vector2D ℤ} :
    p ∈ writtenPixels (writeAscii font x y c color) ↔
      ∃ index, getFont font c = some index ∧ ∃ dx dy : ℕ, dx < 8 ∧ dy < 16 ∧
        (font.data (index + dy)).getLsbD (7 - dx) = true ∧ p = ⟨x + dx, y + dy⟩ := by
  unfold writtenPixels writeAscii
  rw [Set.mem_ofPred_eq]
  cases getFont font c with
  | none => simp
  | some index =>
    simp only [List.mem_flatMap, List.mem_filterMap, List.mem_range,
      Option.ite_none_right_eq_some, Option.some.injEq, Prod.mk.injEq]
    constructor
    · rintro ⟨color', dx, hdx, dy, hdy, hbit, heq, -⟩
      exact ⟨index, rfl, dx, dy, hdx, hdy, (shift_and_ne_zero _ hdx).mp hbit, heq.symm⟩
    · rintro ⟨_, rfl, dx, dy, hdx, hdy, hbit, heq⟩
      exact ⟨color, dx, hdx, dy, hdy, (shift_and_ne_zero _ hdx).mpr hbit, heq.symm, rfl⟩

/-- Where `GetFont` finds a glyph among 256. A character from 128 on is negative, and its
index is past the end of the font. -/
theorem getFont_eq {font : Font} (hsize : font.size = 256 * 16) (c : BitVec 8) :
    getFont font c = if c.toNat < 128 then some (16 * c.toNat) else none := by
  have hlt := c.isLt
  have hsixteen : (16 : BitVec 32).toNat = 16 := rfl
  have hmsb : c.msb = decide (128 ≤ c.toNat) := BitVec.msb_eq_decide c
  unfold getFont
  rw [BitVec.toNat_mul, hsixteen, BitVec.toNat_signExtend, BitVec.toNat_setWidth, hmsb, hsize]
  dsimp only
  by_cases hc : c.toNat < 128
  · have hneg : ¬ 128 ≤ c.toNat := by omega
    simp only [hc, hneg, decide_false, Bool.false_eq_true, if_false, if_true]
    rw [if_neg (by omega)]
    congr 1
    omega
  · have hpos : 128 ≤ c.toNat := by omega
    simp only [hc, hpos, decide_true, if_true, if_false]
    rw [if_pos (by omega)]

/-- The bytes of the file are those of the glyph lines. -/
theorem data_link {src : List Char} (h : IsFontSource src) (other : ℕ → BitVec 8) {c dy : ℕ}
    (hc : c < 256) (hdy : dy < 16) :
    (link ((glyphLines src).map lineByte) other).data (16 * c + dy) =
      lineByte ((glyphLines src).getD (16 * c + dy) []) ∧
    ((glyphLines src).getD (16 * c + dy) []).length = 8 := by
  have hlines := h.lines
  have hi : 16 * c + dy < (glyphLines src).length := by omega
  have hget : (glyphLines src).getD (16 * c + dy) [] = (glyphLines src)[16 * c + dy] := by
    rw [List.getD_eq_getElem?_getD, List.getElem?_eq_getElem hi, Option.getD_some]
  rw [hget]
  refine ⟨?_, h.columns _ (List.getElem_mem hi)⟩
  unfold link
  simp only
  rw [dif_pos (by rw [List.length_map]; exact hi), List.getElem_map]

/-- For a character below 128 the pixels of its glyph are written, for one above none. -/
theorem writtenPixels_writeAscii {src : List Char} (h : IsFontSource src) (other : ℕ → BitVec 8)
    (c : BitVec 8) (x y : ℤ) (color : PixelColor) :
    writtenPixels (writeAscii (link ((glyphLines src).map lineByte) other) x y c color) =
      {p | c.toNat < 128 ∧ p ∈ glyphPixels src c.toNat x y} := by
  have hsize : (link ((glyphLines src).map lineByte) other).size = 256 * 16 := by
    show ((glyphLines src).map lineByte).length = _
    rw [List.length_map, h.lines]
  have hlt := c.isLt
  ext p
  rw [mem_writtenPixels_writeAscii, getFont_eq hsize, Set.mem_ofPred_eq]
  -- a character above 127 is negative, and its index is beyond the table
  by_cases hc : c.toNat < 128
  · simp only [hc, if_true, Option.some.injEq, true_and, exists_eq_left']
    unfold glyphPixels
    rw [Set.mem_ofPred_eq]
    apply exists_congr
    intro dx
    apply exists_congr
    intro dy
    apply and_congr_right
    intro hdx
    apply and_congr_right
    intro hdy
    obtain ⟨hdata, hlen⟩ := data_link h other (show c.toNat < 256 by omega) hdy
    rw [hdata, getLsbD_lineByte hlen hdx, decide_eq_true_iff]
    exact Iff.rfl
  · simp [hc]

/-! ## Encoding and drawing -/

/-- With the compiled file `WriteAscii` paints what the text shows exactly when the character
is below 128 or its glyph is empty. -/
theorem writeAscii_compile_iff (src : List Char) (h : IsFontSource src) :
    ∃ bin, compile src = some bin ∧
      ∀ (other : ℕ → BitVec 8) (c : BitVec 8) (x y : ℤ) (color : PixelColor),
        writtenPixels (writeAscii (link bin other) x y c color) = glyphPixels src c.toNat x y ↔
          (c.toNat < 128 ∨ ∀ dx < 8, ∀ dy < 16, glyphChar src c.toNat dy dx = '.') := by
  refine ⟨_, compile_eq h, fun other c x y color => ?_⟩
  rw [writtenPixels_writeAscii h]
  by_cases hc : c.toNat < 128
  · simp [hc]
  · simp only [hc, false_and, false_or]
    constructor
    · intro hempty dx hdx dy hdy
      by_contra hchar
      have hmem : (⟨x + dx, y + dy⟩ : Vector2D ℤ) ∈ glyphPixels src c.toNat x y :=
        ⟨dx, dy, hdx, hdy, hchar, rfl⟩
      rw [← hempty] at hmem
      exact hmem
    · intro hdots
      ext p
      constructor
      · exact False.elim
      · rintro ⟨dx, dy, hdx, hdy, hchar, -⟩
        exact hchar (hdots dx hdx dy hdy)

/-- A text whose glyphs are filled cells. -/
def filledSource : List Char :=
  (List.replicate (256 * 16) (List.replicate 8 '*')).flatMap (· ++ ['\n'])

theorem glyphLines_filledSource :
    glyphLines filledSource = List.replicate (256 * 16) (List.replicate 8 '*') := by
  unfold glyphLines filledSource
  rw [splitlines_flatMap]
  · exact List.filter_eq_self.mpr fun line hline => by
      rw [List.eq_of_mem_replicate hline]
      decide
  · intro line hline c hc
    rw [List.eq_of_mem_replicate hline] at hc
    rw [List.eq_of_mem_replicate hc]
    decide

theorem filledSource_isFontSource : IsFontSource filledSource := by
  refine ⟨?_, ?_, ?_, ?_⟩
  · rw [glyphLines_filledSource, List.length_replicate]
  · intro line hline
    rw [glyphLines_filledSource] at hline
    rw [List.eq_of_mem_replicate hline, List.length_replicate]
  · intro line hline c hc
    rw [glyphLines_filledSource] at hline
    rw [List.eq_of_mem_replicate hline] at hc
    rw [List.eq_of_mem_replicate hc]
    decide
  · unfold filledSource
    rw [show 256 * 16 = 4095 + 1 from rfl, List.replicate_succ]
    rfl

theorem writeAscii_compile_filledSource :
    ∃ bin, compile filledSource = some bin ∧
      ∀ (other : ℕ → BitVec 8) (c : BitVec 8) (x y : ℤ) (color : PixelColor),
        writtenPixels (writeAscii (link bin other) x y c color) =
          glyphPixels filledSource c.toNat x y ↔
          (c.toNat < 128 ∨ ∀ dx < 8, ∀ dy < 16, glyphChar filledSource c.toNat dy dx = '.') :=
  writeAscii_compile_iff filledSource filledSource_isFontSource

/-- The glyph with the number 0xb1 has 128 pixels, and `WriteAscii` paints none of them. -/
theorem writeAscii_filledSource :
    IsFontSource filledSource ∧ ∃ bin, compile filledSource = some bin ∧
      writtenPixels (writeAscii (link bin fun _ => 0) 0 0 0xb1 WHITE) ≠
        glyphPixels filledSource 0xb1 0 0 := by
  refine ⟨filledSource_isFontSource, _, compile_eq filledSource_isFontSource, fun heq => ?_⟩
  rw [writtenPixels_writeAscii filledSource_isFontSource] at heq
  have hchar : glyphChar filledSource 0xb1 0 0 = '*' := by
    have hline : (List.replicate (256 * 16) (List.replicate 8 '*')).getD (16 * 0xb1 + 0) [] =
        List.replicate 8 '*' := by
      rw [List.getD_eq_getElem?_getD, List.getElem?_replicate, if_pos (by decide),
        Option.getD_some]
    unfold glyphChar
    rw [glyphLines_filledSource, hline]
    rfl
  have hmem : (⟨0, 0⟩ : Vector2D ℤ) ∈ glyphPixels filledSource 0xb1 0 0 :=
    ⟨0, 0, by decide, by decide, by rw [hchar]; decide, rfl⟩
  rw [← heq] at hmem
  exact absurd hmem.1 (by decide)

end Makefont
end TommyOS
