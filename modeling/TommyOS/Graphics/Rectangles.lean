import TommyOS.Graphics.Graphics
import Mathlib.Data.Set.Basic
import Mathlib.Tactic.Linarith

/-!
# Rectangles

The pixels that `FillRectangle` and `DrawRectangle` write. The edges that `DrawRectangle`
draws to the right and below lie outside the filled rectangle, and do not meet in a corner.
-/

namespace TommyOS

variable {pos size : Vector2D ℤ} {c : PixelColor} {p : Vector2D ℤ}

/-- A pixel lies on the first or last row or column of the rectangle at `pos`. -/
def OnOutline (pos size p : Vector2D ℤ) : Prop :=
  p.y = pos.y ∨ p.y = pos.y + size.y - 1 ∨ p.x = pos.x ∨ p.x = pos.x + size.x - 1

theorem mem_writtenPixels_fillRectangle :
    p ∈ writtenPixels (fillRectangle pos size c) ↔
      (pos.x ≤ p.x ∧ p.x < pos.x + size.x) ∧ pos.y ≤ p.y ∧ p.y < pos.y + size.y := by
  unfold writtenPixels fillRectangle
  simp only [Set.mem_ofPred_eq, List.mem_flatMap, List.mem_map, List.mem_range, Prod.mk.injEq]
  constructor
  · rintro ⟨_, dy, hdy, dx, hdx, heq, -⟩
    rw [← heq]
    simp only
    omega
  · rintro ⟨⟨hx0, hx⟩, hy0, hy⟩
    refine ⟨c, (p.y - pos.y).toNat, by omega, (p.x - pos.x).toNat, by omega, ?_, rfl⟩
    obtain ⟨px, py⟩ := p
    simp only [Vector2D.mk.injEq] at hx0 hy0 ⊢
    omega

/-- `DrawRectangle` outlines a rectangle that is one pixel wider and one pixel higher, and
leaves out its lower right corner. -/
theorem mem_writtenPixels_drawRectangle :
    p ∈ writtenPixels (drawRectangle pos size c) ↔
      ((pos.x ≤ p.x ∧ p.x < pos.x + size.x) ∧ (p.y = pos.y ∨ p.y = pos.y + size.y)) ∨
      ((pos.y ≤ p.y ∧ p.y < pos.y + size.y) ∧ (p.x = pos.x ∨ p.x = pos.x + size.x)) := by
  obtain ⟨px, py⟩ := p
  unfold writtenPixels drawRectangle
  simp only [Set.mem_ofPred_eq, List.mem_append, List.mem_flatMap, List.mem_cons, List.mem_range,
    List.not_mem_nil, or_false, Prod.mk.injEq, Vector2D.mk.injEq]
  constructor
  · rintro ⟨_, ⟨d, hd, heq⟩ | ⟨d, hd, heq⟩⟩
    · rcases heq with ⟨⟨hx, hy⟩, -⟩ | ⟨⟨hx, hy⟩, -⟩
      · exact Or.inl ⟨by omega, Or.inl hy⟩
      · exact Or.inl ⟨by omega, Or.inr hy⟩
    · rcases heq with ⟨⟨hx, hy⟩, -⟩ | ⟨⟨hx, hy⟩, -⟩
      · exact Or.inr ⟨by omega, Or.inl hx⟩
      · exact Or.inr ⟨by omega, Or.inr hx⟩
  · rintro (⟨⟨hlow, hhigh⟩, hedge⟩ | ⟨⟨hlow, hhigh⟩, hedge⟩)
    · refine ⟨c, Or.inl ⟨(px - pos.x).toNat, by omega, ?_⟩⟩
      rcases hedge with hy | hy
      · exact Or.inl ⟨⟨by omega, hy⟩, rfl⟩
      · exact Or.inr ⟨⟨by omega, hy⟩, rfl⟩
    · refine ⟨c, Or.inr ⟨(py - pos.y).toNat, by omega, ?_⟩⟩
      rcases hedge with hx | hx
      · exact Or.inl ⟨⟨hx, by omega⟩, rfl⟩
      · exact Or.inr ⟨⟨hx, by omega⟩, rfl⟩

/-- The lower right corner stays open. -/
theorem drawRectangle_corner (pos size : Vector2D ℤ) (c : PixelColor) :
    (⟨pos.x + size.x, pos.y + size.y⟩ : Vector2D ℤ) ∉ writtenPixels (drawRectangle pos size c) := by
  rw [mem_writtenPixels_drawRectangle]
  simp only
  omega

/-- For no size does `DrawRectangle` outline what `FillRectangle` fills: its lower and right
edges are outside. -/
theorem drawRectangle_ne_outline (pos size : Vector2D ℤ) (c : PixelColor) (hx : 1 ≤ size.x) :
    writtenPixels (drawRectangle pos size c) ≠
      {p | p ∈ writtenPixels (fillRectangle pos size c) ∧ OnOutline pos size p} := by
  intro heq
  have hbelow : (⟨pos.x, pos.y + size.y⟩ : Vector2D ℤ) ∈
      writtenPixels (drawRectangle pos size c) := by
    rw [mem_writtenPixels_drawRectangle]
    exact Or.inl ⟨⟨le_refl _, by simp only; omega⟩, Or.inr rfl⟩
  rw [heq, Set.mem_ofPred_eq, mem_writtenPixels_fillRectangle] at hbelow
  simp only at hbelow
  omega

theorem drawRectangle_ne_outline_unit :
    writtenPixels (drawRectangle ⟨0, 0⟩ ⟨1, 1⟩ WHITE) ≠
      {p | p ∈ writtenPixels (fillRectangle ⟨0, 0⟩ ⟨1, 1⟩ WHITE) ∧
        OnOutline ⟨0, 0⟩ ⟨1, 1⟩ p} :=
  drawRectangle_ne_outline ⟨0, 0⟩ ⟨1, 1⟩ WHITE (by decide)

/-- A square of 30 pixels, as the desktop has it: the pixel below its first column is drawn
and not filled. -/
theorem drawRectangle_desktop :
    ∃ p : Vector2D ℤ, p ∈ writtenPixels (drawRectangle ⟨10, 560⟩ ⟨30, 30⟩ ⟨160, 160, 160⟩) ∧
      ¬ (p ∈ writtenPixels (fillRectangle ⟨10, 560⟩ ⟨30, 30⟩ ⟨160, 160, 160⟩) ∧
        OnOutline ⟨10, 560⟩ ⟨30, 30⟩ p) := by
  refine ⟨⟨10, 590⟩, ?_, ?_⟩
  · rw [mem_writtenPixels_drawRectangle]
    decide
  · rw [mem_writtenPixels_fillRectangle]
    exact fun h => absurd h.1.2.2 (by decide)

end TommyOS
