import TommyOS.Graphics.Graphics
import Mathlib.Data.List.FinRange

/-!
# Windows

A window's pixels are a table of exactly `height` rows of `width` pixels, as the
constructor sizes `data_`. `at'` is `none` outside the table, where the source's `At` would
leave a `std::vector`.
-/

namespace TommyOS

structure Window where
  width : ℕ
  height : ℕ
  data : Fin height → Fin width → PixelColor
  transparentColor : Option PixelColor

namespace Window

/-- The constructor: `resize` fills the rows with zero pixels. -/
def new (width height : ℕ) : Window where
  width := width
  height := height
  data := fun _ _ => ⟨0, 0, 0⟩
  transparentColor := none

/-- `SetTransparentColor`. -/
def setTransparentColor (window : Window) (c : Option PixelColor) : Window :=
  { window with transparentColor := c }

/-- `At`. -/
def at' (window : Window) (p : Vector2D ℤ) : Option PixelColor :=
  if h : (0 ≤ p.y ∧ p.y < window.height) ∧ (0 ≤ p.x ∧ p.x < window.width) then
    some (window.data ⟨p.y.toNat, by omega⟩ ⟨p.x.toNat, by omega⟩)
  else
    none

/-- `WindowWriter::Write`. -/
def write (window : Window) (p : Vector2D ℤ) (c : PixelColor) : Option Window :=
  if h : (0 ≤ p.y ∧ p.y < window.height) ∧ (0 ≤ p.x ∧ p.x < window.width) then
    let y : Fin window.height := ⟨p.y.toNat, by omega⟩
    let x : Fin window.width := ⟨p.x.toNat, by omega⟩
    some { window with
      data := Function.update window.data y (Function.update (window.data y) x c) }
  else
    none

/-- `DrawTo`: the `Write` calls on the writer, first without a transparent colour, then
with one. -/
def drawTo (window : Window) (position : Vector2D ℤ) : List PixelWrite :=
  match window.transparentColor with
  | none =>
    (List.finRange window.height).flatMap fun y =>
      (List.finRange window.width).map fun x =>
        (⟨position.x + x.val, position.y + y.val⟩, window.data y x)
  | some tc =>
    (List.finRange window.height).flatMap fun y =>
      (List.finRange window.width).filterMap fun x =>
        let c := window.data y x
        if c ≠ tc then some (⟨position.x + x.val, position.y + y.val⟩, c) else none

end Window

end TommyOS
