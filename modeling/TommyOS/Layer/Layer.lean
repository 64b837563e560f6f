import TommyOS.Window.Window

/-!
# Layers and the layer manager

A `Layer*` is a position in `layers_`, which only grows, or null (`none`). An operation that
dereferences a null pointer is undefined behaviour and gives `none` here.
-/

namespace TommyOS

/-- `window` is what the layer's `shared_ptr<Window>` points to. -/
structure Layer where
  id : ℕ
  pos : Vector2D ℤ
  window : Option Window

namespace Layer

/-- `SetWindow`. -/
def setWindow (layer : Layer) (window : Window) : Layer := { layer with window := some window }

/-- `Move`. -/
def move (layer : Layer) (pos : Vector2D ℤ) : Layer := { layer with pos := pos }

/-- `MoveRelative`. -/
def moveRelative (layer : Layer) (posDiff : Vector2D ℤ) : Layer :=
  { layer with pos := layer.pos + posDiff }

/-- `DrawTo`. -/
def drawTo (layer : Layer) : List PixelWrite :=
  match layer.window with
  | some window => window.drawTo layer.pos
  | none => []

end Layer

/-- `LayerManager`, over a type of writers. -/
structure LayerManager (W : Type*) where
  writer : Option W
  layers : List Layer
  layerStack : List (Option ℕ)
  latestId : ℕ

namespace LayerManager

variable {W : Type*}

def new : LayerManager W where
  writer := none
  layers := []
  layerStack := []
  latestId := 0

/-- `SetWriter`. -/
def setWriter (m : LayerManager W) (writer : W) : LayerManager W :=
  { m with writer := some writer }

/-- `NewLayer`: the layer's position is not initialised, so it is whatever the memory
held. -/
def newLayer (m : LayerManager W) (uninitialised : Vector2D ℤ) : ℕ × LayerManager W :=
  let latestId := (m.latestId + 1) % 2 ^ 32
  (m.layers.length,
    { m with
      latestId := latestId
      layers := m.layers ++ [⟨latestId, uninitialised, none⟩] })

/-- The layer a pointer points to; `none` for a null pointer. -/
def deref (m : LayerManager W) (p : Option ℕ) : Option Layer := p.bind fun i => m.layers[i]?

/-- A change of the layer a pointer points to. -/
def modify (m : LayerManager W) (p : Option ℕ) (f : Layer → Layer) : Option (LayerManager W) :=
  match p with
  | some i => if i < m.layers.length then some { m with layers := m.layers.modify i f } else none
  | none => none

/-- `FindLayer`. -/
def findLayer (m : LayerManager W) (id : ℕ) : Option ℕ :=
  m.layers.findIdx? fun elem => elem.id == id

/-- The loop body of `Draw`, which dereferences the layer and the writer. -/
def drawLayer (m : LayerManager W) (p : Option ℕ) : Option (List PixelWrite) :=
  match m.deref p, m.writer with
  | some layer, some _ => some layer.drawTo
  | _, _ => none

/-- `Draw`: the `Write` calls on the writer. -/
def draw (m : LayerManager W) : Option (List PixelWrite) :=
  (m.layerStack.mapM m.drawLayer).map List.flatten

/-- `Move`. -/
def move (m : LayerManager W) (id : ℕ) (newPosition : Vector2D ℤ) : Option (LayerManager W) :=
  m.modify (m.findLayer id) fun layer => layer.move newPosition

/-- `MoveRelative`. -/
def moveRelative (m : LayerManager W) (id : ℕ) (posDiff : Vector2D ℤ) :
    Option (LayerManager W) :=
  m.modify (m.findLayer id) fun layer => layer.moveRelative posDiff

/-- `Hide`. -/
def hide (m : LayerManager W) (id : ℕ) : LayerManager W :=
  { m with layerStack := m.layerStack.erase (m.findLayer id) }

/-- `UpDown`. -/
def upDown (m : LayerManager W) (id : ℕ) (newHeight : ℤ) : LayerManager W :=
  if newHeight < 0 then
    m.hide id
  else
    let newPos := min newHeight.toNat m.layerStack.length
    let layer := m.findLayer id
    if layer ∈ m.layerStack then
      -- the iterator to the end is stepped back before the erase
      let newPos := if newPos = m.layerStack.length then newPos - 1 else newPos
      { m with layerStack := (m.layerStack.erase layer).insertIdx newPos layer }
    else
      { m with layerStack := m.layerStack.insertIdx newPos layer }

end LayerManager

end TommyOS
