import TommyOS.Graphics.GraphicsTheorems
import TommyOS.Layer.Layer
import TommyOS.Window.WindowTheorems

/-!
# The painter's rule

`composite` is what a stack of layers should look like: at each pixel the colour of the
highest layer that is visible there. `Draw` puts exactly this picture into the frame
buffer, byte by byte.
-/

namespace TommyOS

open WriteLog

/-- The colour a layer shows at a pixel of the screen. -/
def Layer.colorAt (layer : Layer) (p : Vector2D ℤ) : Option PixelColor :=
  layer.window.bind fun window => window.visibleAt ⟨p.x - layer.pos.x, p.y - layer.pos.y⟩

/-- The picture of a stack, lowest layer first. -/
def composite (stack : List Layer) (p : Vector2D ℤ) : Option PixelColor :=
  stack.reverse.findSome? fun layer => layer.colorAt p

/-- The layer's window, if it has one, lies inside the resolution. -/
def Layer.Inside (layer : Layer) (config : FrameBufferConfig) : Prop :=
  ∀ window, layer.window = some window →
    (0 ≤ layer.pos.x ∧ layer.pos.x + window.width ≤ config.horizontalResolution.toNat) ∧
      0 ≤ layer.pos.y ∧ layer.pos.y + window.height ≤ config.verticalResolution.toNat

theorem Layer.lastWrite_drawTo (layer : Layer) (p : Vector2D ℤ) :
    lastWrite layer.drawTo p = layer.colorAt p := by
  unfold Layer.drawTo Layer.colorAt
  cases layer.window with
  | none => rfl
  | some window => exact Window.lastWrite_drawTo

/-- A layer inside the resolution writes to the screen only. -/
theorem Layer.drawTo_screen {layer : Layer} {config : FrameBufferConfig}
    (hinside : layer.Inside config) {w : PixelWrite} (hw : w ∈ layer.drawTo) :
    w.1 ∈ config.screen := by
  unfold Layer.drawTo at hw
  cases hwindow : layer.window with
  | none =>
    rw [hwindow] at hw
    exact absurd hw List.not_mem_nil
  | some window =>
    rw [hwindow] at hw
    have hbox := Window.drawTo_inside hw
    have hin := hinside window hwindow
    rw [FrameBufferConfig.mem_screen]
    omega

namespace LayerManager

variable {W : Type*} {m : LayerManager W} {stack : List Layer}

/-- `Draw` on a stack of layers draws one after the other, lowest first. -/
theorem draw_eq {writer : W} (hwriter : m.writer = some writer)
    (hstack : m.layerStack.mapM m.deref = some stack) :
    m.draw = some (stack.flatMap Layer.drawTo) := by
  have hdraw : ∀ (pointers : List (Option ℕ)) (stack : List Layer),
      pointers.mapM m.deref = some stack →
        pointers.mapM m.drawLayer = some (stack.map Layer.drawTo) := by
    intro pointers
    induction pointers with
    | nil =>
      intro stack h
      rw [← Option.some.inj h]
      rfl
    | cons p pointers ih =>
      intro stack h
      rw [List.mapM_cons, Option.bind_eq_bind, Option.bind_eq_some_iff] at h
      obtain ⟨layer, hlayer, hrest⟩ := h
      rw [Option.bind_eq_bind, Option.bind_eq_some_iff] at hrest
      obtain ⟨layers, hlayers, hcons⟩ := hrest
      rw [← Option.some.inj hcons, List.mapM_cons, ih layers hlayers]
      simp [drawLayer, hlayer, hwriter]
  unfold draw
  rw [hdraw m.layerStack stack hstack, Option.map_some, List.flatMap_def]

/-- `Draw` shows the picture of the stack: the highest visible layer at every pixel, and
nothing else in memory changes. -/
theorem draw_shows_composite (m : LayerManager FrameBufferWriter) (writer : FrameBufferWriter)
    (hwriter : m.writer = some writer) (hfits : writer.config.Fits) (stack : List Layer)
    (hstack : m.layerStack.mapM m.deref = some stack)
    (hinside : ∀ layer ∈ stack, layer.Inside writer.config) (mem : ℕ → BitVec 8) :
    ∃ writes, m.draw = some writes ∧
      writer.FrameShows (composite stack) mem (writer.writeAll mem writes) := by
  refine ⟨stack.flatMap Layer.drawTo, draw_eq hwriter hstack, ?_⟩
  have hscreen : ∀ w ∈ stack.flatMap Layer.drawTo, w.1 ∈ writer.config.screen := by
    intro w hw
    obtain ⟨layer, hlayer, hmem⟩ := List.mem_flatMap.mp hw
    exact Layer.drawTo_screen (hinside layer hlayer) hmem
  have hpicture : composite stack = lastWrite (stack.flatMap Layer.drawTo) := by
    funext p
    rw [lastWrite_flatMap]
    simp only [composite, Layer.lastWrite_drawTo]
  rw [hpicture]
  exact FrameBufferWriter.writeAll_shows hfits hscreen mem

/-- A background, and over its middle a window with one transparent corner. -/
def overlappingStack : List Layer :=
  [⟨1, ⟨0, 0⟩, some ⟨4, 3, fun _ _ => ⟨45, 118, 237⟩, none⟩⟩,
    ⟨2, ⟨1, 1⟩, some ⟨2, 2, fun y x => if x = 1 ∧ y = 1 then ⟨0, 0, 1⟩ else ⟨255, 255, 255⟩,
      some ⟨0, 0, 1⟩⟩⟩]

/-- A screen of 4 by 3 pixels with one pixel of padding. -/
def smallConfig : FrameBufferConfig := ⟨0x80000000, 5, 4, 3, .kPixelBGRResv8BitPerColor⟩

def overlappingManager : LayerManager FrameBufferWriter where
  writer := some (newPixelWriter smallConfig)
  layers := overlappingStack
  layerStack := [some 0, some 1]
  latestId := 2

theorem overlappingStack_inside : ∀ layer ∈ overlappingStack, layer.Inside smallConfig := by
  intro layer hlayer window hwindow
  simp only [overlappingStack, List.mem_cons, List.not_mem_nil, or_false] at hlayer
  rcases hlayer with h | h
  · rw [h] at hwindow ⊢
    rw [← Option.some.inj hwindow]
    decide
  · rw [h] at hwindow ⊢
    rw [← Option.some.inj hwindow]
    decide

theorem draw_shows_composite_overlappingManager :
    ∃ writes, overlappingManager.draw = some writes ∧
      (newPixelWriter smallConfig).FrameShows (composite overlappingStack) (fun _ => 0)
        ((newPixelWriter smallConfig).writeAll (fun _ => 0) writes) :=
  draw_shows_composite overlappingManager (newPixelWriter smallConfig) rfl
    ⟨by decide, by decide⟩ overlappingStack rfl overlappingStack_inside fun _ => 0

end LayerManager

end TommyOS
