import TommyOS.Lib.WriteLog
import Mathlib.Algebra.Order.Group.Nat
import Mathlib.Data.Int.Basic
import Mathlib.Data.Set.Defs

/-!
# Pixels and the frame buffer

Colours, positions and the two frame buffer writers. An `int` is an integer; the arithmetic
of `PixelAt` is that of `uint32_t`. A function that draws is the list of the `Write` calls
it makes, in order, and a `Write` on the frame buffer is the list of its byte stores.
-/

namespace TommyOS

structure PixelColor where
  r : BitVec 8
  g : BitVec 8
  b : BitVec 8
deriving DecidableEq, Repr

def BLACK : PixelColor := ⟨0, 0, 0⟩

def WHITE : PixelColor := ⟨255, 255, 255⟩

structure Vector2D (α : Type*) where
  x : α
  y : α
deriving DecidableEq, Repr

/-- `operator +=`. -/
instance {α : Type*} [Add α] : Add (Vector2D α) := ⟨fun lhs rhs => ⟨lhs.x + rhs.x, lhs.y + rhs.y⟩⟩

theorem Vector2D.add_def {α : Type*} [Add α] (u v : Vector2D α) :
    u + v = ⟨u.x + v.x, u.y + v.y⟩ := rfl

/-- A call `Write(x, y, c)`. -/
abbrev PixelWrite := Vector2D ℤ × PixelColor

/-- The pixels that some calls write. -/
def writtenPixels (writes : List PixelWrite) : Set (Vector2D ℤ) := {p | ∃ c, (p, c) ∈ writes}

/-- `DrawRectangle`. -/
def drawRectangle (pos size : Vector2D ℤ) (c : PixelColor) : List PixelWrite :=
  ((List.range size.x.toNat).flatMap fun (dx : ℕ) =>
    [(⟨pos.x + dx, pos.y⟩, c), (⟨pos.x + dx, pos.y + size.y⟩, c)]) ++
  (List.range size.y.toNat).flatMap fun (dy : ℕ) =>
    [(⟨pos.x, pos.y + dy⟩, c), (⟨pos.x + size.x, pos.y + dy⟩, c)]

/-- `FillRectangle`. -/
def fillRectangle (pos size : Vector2D ℤ) (c : PixelColor) : List PixelWrite :=
  (List.range size.y.toNat).flatMap fun (dy : ℕ) =>
    (List.range size.x.toNat).map fun (dx : ℕ) => (⟨pos.x + dx, pos.y + dy⟩, c)

/-! ## The frame buffer -/

inductive PixelFormat where
  | kPixelRGBResv8BitPerColor
  | kPixelBGRResv8BitPerColor
deriving DecidableEq, Repr

/-- `frameBuffer` is the address of the first byte. -/
structure FrameBufferConfig where
  frameBuffer : ℕ
  pixelsPerScanLine : BitVec 32
  horizontalResolution : BitVec 32
  verticalResolution : BitVec 32
  pixelFormat : PixelFormat
deriving DecidableEq, Repr

/-- The two subclasses of `FrameBufferWriter`. -/
inductive FrameBufferWriter where
  | BGRResv8BitPerColorPixelWriter (config : FrameBufferConfig)
  | RGBResv8BitPerColorPixelWriter (config : FrameBufferConfig)
deriving DecidableEq, Repr

namespace FrameBufferWriter

def config : FrameBufferWriter → FrameBufferConfig
  | BGRResv8BitPerColorPixelWriter config => config
  | RGBResv8BitPerColorPixelWriter config => config

/-- `Width`. -/
def width (writer : FrameBufferWriter) : ℤ := writer.config.horizontalResolution.toInt

/-- `Height`. -/
def height (writer : FrameBufferWriter) : ℤ := writer.config.verticalResolution.toInt

/-- `PixelAt`: the address of the first byte of a pixel. -/
def pixelAt (config : FrameBufferConfig) (x y : ℤ) : ℕ :=
  config.frameBuffer +
    (4 * (config.pixelsPerScanLine * BitVec.ofInt 32 y + BitVec.ofInt 32 x)).toNat

/-- The byte stores of `Write`. -/
def writeBytes (writer : FrameBufferWriter) (w : PixelWrite) : List (ℕ × BitVec 8) :=
  match writer with
  | BGRResv8BitPerColorPixelWriter config =>
    let p := pixelAt config w.1.x w.1.y
    [(p + 0, w.2.b), (p + 1, w.2.g), (p + 2, w.2.r)]
  | RGBResv8BitPerColorPixelWriter config =>
    let p := pixelAt config w.1.x w.1.y
    [(p + 0, w.2.r), (p + 1, w.2.g), (p + 2, w.2.b)]

/-- Memory after a list of `Write` calls. -/
def writeAll (writer : FrameBufferWriter) (mem : ℕ → BitVec 8) (writes : List PixelWrite) :
    ℕ → BitVec 8 :=
  WriteLog.store mem (writes.flatMap writer.writeBytes)

end FrameBufferWriter

/-- The writer that `KernelMainNewStack` creates for a frame buffer. -/
def newPixelWriter (config : FrameBufferConfig) : FrameBufferWriter :=
  match config.pixelFormat with
  | .kPixelBGRResv8BitPerColor => .BGRResv8BitPerColorPixelWriter config
  | .kPixelRGBResv8BitPerColor => .RGBResv8BitPerColorPixelWriter config

end TommyOS
