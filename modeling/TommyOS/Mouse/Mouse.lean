import TommyOS.Window.WindowTheorems

/-!
# The mouse cursor

The shape of the cursor, the writes of `DrawMouseCursor`, and the window that the kernel
makes of them.
-/

namespace TommyOS

open WriteLog

def kMouseCursorWidth : ℕ := 15

def kMouseCursorHeight : ℕ := 24

def kMouseTransparentColor : PixelColor := ⟨0, 0, 1⟩

def mouseCursorShape : List String :=
  ["@              ",
    "@@             ",
    "@.@            ",
    "@..@           ",
    "@...@          ",
    "@....@         ",
    "@.....@        ",
    "@......@       ",
    "@.......@      ",
    "@........@     ",
    "@.........@    ",
    "@..........@   ",
    "@...........@  ",
    "@............@ ",
    "@......@@@@@@@@",
    "@......@       ",
    "@....@@.@      ",
    "@...@ @.@      ",
    "@..@   @.@     ",
    "@.@    @.@     ",
    "@@      @.@    ",
    "@       @.@    ",
    "         @.@   ",
    "         @@@   "]

/-- The colour for `mouse_cursor_shape[dy][dx]`. -/
def mouseCursorColor (dx dy : ℕ) : PixelColor :=
  match (mouseCursorShape.getD dy "").toList.getD dx ' ' with
  | '@' => BLACK
  | '.' => WHITE
  | _ => kMouseTransparentColor

/-- `DrawMouseCursor`. -/
def drawMouseCursor (position : Vector2D ℤ) : List PixelWrite :=
  (List.range kMouseCursorWidth).flatMap fun (dx : ℕ) =>
    (List.range kMouseCursorHeight).map fun (dy : ℕ) =>
      (⟨position.x + dx, position.y + dy⟩, mouseCursorColor dx dy)

/-- `mouse_window` after `SetTransparentColor` and `DrawMouseCursor`. -/
def mouseWindow : Option Window :=
  Window.cells.replay
    ((Window.new kMouseCursorWidth kMouseCursorHeight).setTransparentColor
      (some kMouseTransparentColor))
    (drawMouseCursor ⟨0, 0⟩)

theorem mem_drawMouseCursor {w : PixelWrite} : w ∈ drawMouseCursor ⟨0, 0⟩ ↔
    ∃ dx < kMouseCursorWidth, ∃ dy < kMouseCursorHeight,
      w = (⟨dx, dy⟩, mouseCursorColor dx dy) := by
  unfold drawMouseCursor
  simp only [List.mem_flatMap, List.mem_map, List.mem_range, Int.zero_add, eq_comm (b := w)]

/-- Each pixel of the cursor is written once. -/
theorem lastWrite_drawMouseCursor {dx dy : ℕ} (hdx : dx < kMouseCursorWidth)
    (hdy : dy < kMouseCursorHeight) :
    lastWrite (drawMouseCursor ⟨0, 0⟩) ⟨dx, dy⟩ = some (mouseCursorColor dx dy) := by
  apply lastWrite_eq_some_of_unique
  · rw [mem_drawMouseCursor]
    exact ⟨dx, hdx, dy, hdy, rfl⟩
  · intro c hc
    rw [mem_drawMouseCursor] at hc
    obtain ⟨dx', _, dy', _, heq⟩ := hc
    rw [Prod.mk.injEq, Vector2D.mk.injEq] at heq
    rw [heq.2, show dx' = dx by omega, show dy' = dy by omega]

/-- The window of the cursor has its size, its transparent colour and its shape. -/
theorem mouseWindow_eq_some :
    ∃ window ∈ Window.Shaped kMouseCursorWidth kMouseCursorHeight (some kMouseTransparentColor),
      mouseWindow = some window ∧ ∀ dx < kMouseCursorWidth, ∀ dy < kMouseCursorHeight,
        window.at' ⟨dx, dy⟩ = some (mouseCursorColor dx dy) := by
  have hlog : ∀ w ∈ drawMouseCursor ⟨0, 0⟩,
      w.1 ∈ Window.area kMouseCursorWidth kMouseCursorHeight := by
    intro w hw
    obtain ⟨dx, hdx, dy, hdy, heq⟩ := mem_drawMouseCursor.mp hw
    rw [heq, Window.mem_area]
    simp only
    omega
  have hblank : (Window.new kMouseCursorWidth kMouseCursorHeight).setTransparentColor
      (some kMouseTransparentColor) ∈
      Window.Shaped kMouseCursorWidth kMouseCursorHeight (some kMouseTransparentColor) :=
    ⟨⟨rfl, rfl⟩, rfl⟩
  obtain ⟨window, hshaped, hreplay, hread⟩ := (Window.cells_lawful _ _ _).replay hblank hlog
  refine ⟨window, hshaped, hreplay, fun dx hdx dy hdy => ?_⟩
  have hpixel := hread ⟨dx, dy⟩ (by rw [Window.mem_area]; simp only; omega)
  rw [lastWrite_drawMouseCursor hdx hdy, Option.getD_some] at hpixel
  -- `cells` reads black outside the table, so inside it `At` gives the same colour
  obtain ⟨c, hc⟩ := window.exists_at' (p := ⟨dx, dy⟩) (by rw [hshaped.1.1]; simp only; omega)
    (by rw [hshaped.1.2]; simp only; omega)
  rw [← hpixel, hc]
  simp [Window.cells, hc]

end TommyOS
