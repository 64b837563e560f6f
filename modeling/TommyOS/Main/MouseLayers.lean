import TommyOS.Layer.LayerTheorems
import TommyOS.Mouse.Mouse
import Mathlib.Data.List.Infix

/-!
# The mouse on the screen

The layers that `KernelMainNewStack` arranges and the observer that moves the cursor. The
observer adds each report to the cursor's position and draws; whether all its `Write` calls
are on the screen depends on the reports alone.
-/

namespace TommyOS

/-! ## The arrangement at boot and the observer -/

/-- `bgwindow`, with whatever has been drawn on it. -/
def backgroundWindow (config : FrameBufferConfig)
    (data : Fin config.verticalResolution.toNat → Fin config.horizontalResolution.toNat →
      PixelColor) : Window where
  width := config.horizontalResolution.toNat
  height := config.verticalResolution.toNat
  data := data
  transparentColor := none

/-- The two layers, from the two windows: the mouse's layer id and the manager. -/
def arrangeLayers (config : FrameBufferConfig) (bgwindow mouseWindow : Window)
    (uninitialised : Vector2D ℤ) : Option (ℕ × LayerManager FrameBufferWriter) := do
  let m := LayerManager.new.setWriter (newPixelWriter config)
  let (bglayer, m) := m.newLayer uninitialised
  let m ← m.modify (some bglayer) fun layer => (layer.setWindow bgwindow).move ⟨0, 0⟩
  let bglayerId ← (m.deref (some bglayer)).map Layer.id
  let (mouseLayer, m) := m.newLayer uninitialised
  let m ← m.modify (some mouseLayer) fun layer => (layer.setWindow mouseWindow).move ⟨200, 200⟩
  let mouseLayerId ← (m.deref (some mouseLayer)).map Layer.id
  some (mouseLayerId, (m.upDown bglayerId 0).upDown mouseLayerId 1)

/-- The displacement of a mouse report. -/
structure MouseReport where
  displacementX : Int8
  displacementY : Int8
deriving DecidableEq, Repr

/-- `MouseObserver`, after the `Write` calls `drawn`. -/
def mouseObserver (mouseLayerId : ℕ) (st : LayerManager FrameBufferWriter × List PixelWrite)
    (report : MouseReport) : Option (LayerManager FrameBufferWriter × List PixelWrite) := do
  let m ← st.1.moveRelative mouseLayerId
    ⟨report.displacementX.toInt, report.displacementY.toInt⟩
  let writes ← m.draw
  some (m, st.2 ++ writes)

/-- The `Write` calls of the first `Draw` and of the observer on a sequence of reports. -/
def mouseRun (config : FrameBufferConfig) (bgwindow : Window) (uninitialised : Vector2D ℤ)
    (reports : List MouseReport) : Option (List PixelWrite) := do
  let mouseWindow ← mouseWindow
  let (mouseLayerId, m) ← arrangeLayers config bgwindow mouseWindow uninitialised
  let writes ← m.draw
  let st ← reports.foldlM (mouseObserver mouseLayerId) (m, writes)
  some st.2

/-! ## The position of the cursor -/

/-- Where the cursor is after some reports, from `start`. -/
def cursorPosition (start : Vector2D ℤ) (reports : List MouseReport) : Vector2D ℤ where
  x := start.x + (reports.map fun report => report.displacementX.toInt).sum
  y := start.y + (reports.map fun report => report.displacementY.toInt).sum

theorem cursorPosition_nil (start : Vector2D ℤ) : cursorPosition start [] = start := by
  simp [cursorPosition]

theorem cursorPosition_cons (start : Vector2D ℤ) (report : MouseReport)
    (reports : List MouseReport) :
    cursorPosition start (report :: reports) =
      cursorPosition (start + ⟨report.displacementX.toInt, report.displacementY.toInt⟩)
        reports := by
  simp [cursorPosition, Vector2D.add_def, Int.add_assoc]

/-- The whole cursor is on the screen. -/
def CursorInside (config : FrameBufferConfig) (p : Vector2D ℤ) : Prop :=
  (0 ≤ p.x ∧ p.x + kMouseCursorWidth ≤ config.horizontalResolution.toNat) ∧
    0 ≤ p.y ∧ p.y + kMouseCursorHeight ≤ config.verticalResolution.toNat

/-- The pixels of the cursor that are drawn reach all four sides of its window, so they are
on the screen exactly when the window is. -/
theorem drawTo_mouseWindow {window : Window} (hwindow : mouseWindow = some window)
    (config : FrameBufferConfig) (p : Vector2D ℤ) :
    (∀ w ∈ window.drawTo p, w.1 ∈ config.screen) ↔ CursorInside config p := by
  obtain ⟨window', hshaped, hsome, hpixel⟩ := mouseWindow_eq_some
  rw [hwindow] at hsome
  rw [← Option.some.inj hsome] at hshaped hpixel
  obtain ⟨⟨hwidth, hheight⟩, htransparent⟩ := hshaped
  constructor
  · intro hall
    -- the write of an opaque pixel of the shape
    have hopaque : ∀ dx < kMouseCursorWidth, ∀ dy < kMouseCursorHeight,
        mouseCursorColor dx dy ≠ kMouseTransparentColor →
        (⟨p.x + dx, p.y + dy⟩ : Vector2D ℤ) ∈ config.screen := by
      intro dx hdx dy hdy hcolor
      apply hall (⟨p.x + dx, p.y + dy⟩, mouseCursorColor dx dy)
      have hx : p.x + (dx : ℤ) - p.x = dx := by omega
      have hy : p.y + (dy : ℤ) - p.y = dy := by omega
      rw [Window.mem_drawTo, hx, hy]
      unfold Window.visibleAt
      rw [hpixel dx hdx dy hdy, htransparent, Option.filter_some, if_pos]
      simp [Ne.symm hcolor]
    -- the tip, the end of the widest row and the foot are opaque
    have hcorner := hopaque 0 (by decide) 0 (by decide) (by decide)
    have hright := hopaque 14 (by decide) 14 (by decide) (by decide)
    have hbottom := hopaque 9 (by decide) 23 (by decide) (by decide)
    rw [FrameBufferConfig.mem_screen] at hcorner hright hbottom
    simp only at hcorner hright hbottom
    unfold CursorInside
    simp only [kMouseCursorWidth, kMouseCursorHeight]
    omega
  · intro hinside w hw
    have hbox := Window.drawTo_inside hw
    rw [hwidth, hheight] at hbox
    unfold CursorInside at hinside
    rw [FrameBufferConfig.mem_screen]
    omega

/-! ## The run -/

section Run

variable {config : FrameBufferConfig} {bgwindow window : Window}

/-- The manager with the cursor at `p`. -/
def managerAt (config : FrameBufferConfig) (bgwindow window : Window) (p : Vector2D ℤ) :
    LayerManager FrameBufferWriter where
  writer := some (newPixelWriter config)
  layers := [⟨1, ⟨0, 0⟩, some bgwindow⟩, ⟨2, p, some window⟩]
  layerStack := [some 0, some 1]
  latestId := 2

theorem arrangeLayers_eq (config : FrameBufferConfig) (bgwindow window : Window)
    (uninitialised : Vector2D ℤ) :
    arrangeLayers config bgwindow window uninitialised =
      some (2, managerAt config bgwindow window ⟨200, 200⟩) := rfl

theorem draw_managerAt (p : Vector2D ℤ) :
    (managerAt config bgwindow window p).draw =
      some (bgwindow.drawTo ⟨0, 0⟩ ++ window.drawTo p) := by
  have hdraw := LayerManager.draw_eq (m := managerAt config bgwindow window p) rfl rfl
  rw [hdraw]
  simp [Layer.drawTo]

theorem moveRelative_managerAt (p d : Vector2D ℤ) :
    (managerAt config bgwindow window p).moveRelative 2 d =
      some (managerAt config bgwindow window (p + d)) := rfl

/-- One report: the cursor moves, and a background and a cursor are drawn. -/
theorem mouseObserver_managerAt (p : Vector2D ℤ) (drawn : List PixelWrite)
    (report : MouseReport) :
    mouseObserver 2 (managerAt config bgwindow window p, drawn) report =
      let p' := p + ⟨report.displacementX.toInt, report.displacementY.toInt⟩
      some (managerAt config bgwindow window p',
        drawn ++ (bgwindow.drawTo ⟨0, 0⟩ ++ window.drawTo p')) := by
  unfold mouseObserver
  simp only [moveRelative_managerAt, draw_managerAt, Option.bind_eq_bind, Option.bind_some]

theorem drawTo_backgroundWindow
    (data : Fin config.verticalResolution.toNat → Fin config.horizontalResolution.toNat →
      PixelColor) {w : PixelWrite} (hw : w ∈ (backgroundWindow config data).drawTo ⟨0, 0⟩) :
    w.1 ∈ config.screen := by
  have hbox := Window.drawTo_inside hw
  simp only [backgroundWindow] at hbox
  rw [FrameBufferConfig.mem_screen]
  omega

variable {data : Fin config.verticalResolution.toNat → Fin config.horizontalResolution.toNat →
  PixelColor}

/-- The writes of one `Draw` are on the screen when the cursor is. -/
theorem draw_screen_iff (hwindow : mouseWindow = some window) (p : Vector2D ℤ) :
    (∀ w ∈ (backgroundWindow config data).drawTo ⟨0, 0⟩ ++ window.drawTo p,
      w.1 ∈ config.screen) ↔ CursorInside config p := by
  rw [List.forall_mem_append, drawTo_mouseWindow hwindow]
  exact and_iff_right fun w hw => drawTo_backgroundWindow data hw

/-- The observer on a sequence of reports, by induction on it: the cursor ends at the sum,
and the new writes are on the screen when every position on the way is. -/
theorem foldlM_mouseObserver
    (data : Fin config.verticalResolution.toNat → Fin config.horizontalResolution.toNat →
      PixelColor) (hwindow : mouseWindow = some window) (reports : List MouseReport)
    (p : Vector2D ℤ) (drawn : List PixelWrite) :
    ∃ drawn', reports.foldlM (mouseObserver 2)
        (managerAt config (backgroundWindow config data) window p, drawn) =
        some (managerAt config (backgroundWindow config data) window (cursorPosition p reports),
          drawn') ∧
      ((∀ w ∈ drawn', w.1 ∈ config.screen) ↔ (∀ w ∈ drawn, w.1 ∈ config.screen) ∧
        ∀ moves, moves <+: reports → moves ≠ [] →
          CursorInside config (cursorPosition p moves)) := by
  induction reports generalizing p drawn with
  | nil =>
    refine ⟨drawn, ?_, (and_iff_left fun moves hmoves hne => ?_).symm⟩
    · rw [cursorPosition_nil]
      rfl
    · exact absurd (List.prefix_nil.mp hmoves) hne
  | cons report reports ih =>
    rw [List.foldlM_cons, mouseObserver_managerAt, cursorPosition_cons]
    generalize hp : p + ⟨report.displacementX.toInt, report.displacementY.toInt⟩ = p'
    obtain ⟨drawn', hrun, hiff⟩ :=
      ih p' (drawn ++ ((backgroundWindow config data).drawTo ⟨0, 0⟩ ++ window.drawTo p'))
    refine ⟨drawn', hrun, ?_⟩
    rw [hiff, List.forall_mem_append, draw_screen_iff hwindow, and_assoc]
    apply and_congr_right'
    -- a nonempty prefix is the first report and a prefix of the rest
    constructor
    · intro h moves hmoves hne
      rcases List.prefix_cons_iff.mp hmoves with hnil | ⟨rest, hmoves', hrest⟩
      · exact absurd hnil hne
      · rw [hmoves', cursorPosition_cons, hp]
        by_cases hrest' : rest = []
        · rw [hrest', cursorPosition_nil]
          exact h.1
        · exact h.2 rest hrest hrest'
    · intro h
      have hcons : ∀ rest, rest <+: reports →
          CursorInside config (cursorPosition p' rest) := by
        intro rest hrest
        have hinside := h (report :: rest) (List.cons_prefix_cons.mpr ⟨rfl, hrest⟩)
          (List.cons_ne_nil report rest)
        rwa [cursorPosition_cons, hp] at hinside
      have hfirst := hcons [] (List.nil_prefix)
      rw [cursorPosition_nil] at hfirst
      exact ⟨hfirst, fun rest hrest _ => hcons rest hrest⟩

/-- The run from boot. -/
theorem mouseRun_eq_some (config : FrameBufferConfig)
    (data : Fin config.verticalResolution.toNat → Fin config.horizontalResolution.toNat →
      PixelColor) (uninitialised : Vector2D ℤ) (reports : List MouseReport) :
    ∃ writes, mouseRun config (backgroundWindow config data) uninitialised reports = some writes ∧
      ((∀ w ∈ writes, w.1 ∈ config.screen) ↔
        ∀ moves, moves <+: reports →
          CursorInside config (cursorPosition ⟨200, 200⟩ moves)) := by
  obtain ⟨window, _, hwindow, _⟩ := mouseWindow_eq_some
  obtain ⟨writes, hrun, hiff⟩ := foldlM_mouseObserver data hwindow reports ⟨200, 200⟩
    ((backgroundWindow config data).drawTo ⟨0, 0⟩ ++ window.drawTo ⟨200, 200⟩)
  refine ⟨writes, ?_, ?_⟩
  · unfold mouseRun
    simp only [hwindow, arrangeLayers_eq, draw_managerAt, Option.bind_eq_bind, Option.bind_some,
      hrun]
  · rw [hiff, draw_screen_iff hwindow]
    constructor
    · intro h moves hmoves
      by_cases hne : moves = []
      · rw [hne, cursorPosition_nil]
        exact h.1
      · exact h.2 moves hmoves hne
    · intro h
      have hfirst := h [] List.nil_prefix
      rw [cursorPosition_nil] at hfirst
      exact ⟨hfirst, fun moves hmoves _ => h moves hmoves⟩

end Run

/-- From boot, for any reports: every `Write` is on the screen exactly when the cursor stays
inside it after every prefix of the reports, and then every byte stored is one of the frame
buffer. -/
theorem mouseRun_on_screen_iff (config : FrameBufferConfig)
    (data : Fin config.verticalResolution.toNat → Fin config.horizontalResolution.toNat →
      PixelColor) (uninitialised : Vector2D ℤ) (reports : List MouseReport) :
    ∃ writes, mouseRun config (backgroundWindow config data) uninitialised reports = some writes ∧
      ((∀ w ∈ writes, w.1 ∈ config.screen) ↔
        ∀ moves, moves <+: reports → CursorInside config (cursorPosition ⟨200, 200⟩ moves)) ∧
      (config.Fits → (∀ w ∈ writes, w.1 ∈ config.screen) →
        ∀ w ∈ writes, ∀ st ∈ (newPixelWriter config).writeBytes w,
          config.frameBuffer ≤ st.1 ∧ st.1 < config.frameBuffer + config.byteCount) := by
  obtain ⟨writes, hrun, hiff⟩ := mouseRun_eq_some config data uninitialised reports
  refine ⟨writes, hrun, hiff, fun hfits hscreen w hw st hst => ?_⟩
  rw [← config_newPixelWriter config] at hfits
  have hinside := FrameBufferWriter.writeBytes_inside hfits
    (by rw [config_newPixelWriter]; exact hscreen w hw) hst
  rwa [config_newPixelWriter] at hinside

/-- A screen of 800 by 600 pixels. -/
def svgaConfig : FrameBufferConfig := ⟨0x80000000, 800, 800, 600, .kPixelBGRResv8BitPerColor⟩

/-- Two reports to the left take the cursor off the screen. -/
theorem mouseRun_left_of_screen :
    ∃ writes, mouseRun svgaConfig (backgroundWindow svgaConfig fun _ _ => BLACK) ⟨0, 0⟩
        [⟨-128, 0⟩, ⟨-128, 0⟩] = some writes ∧
      ¬ ∀ w ∈ writes, w.1 ∈ svgaConfig.screen := by
  obtain ⟨writes, hrun, hiff⟩ :=
    mouseRun_eq_some svgaConfig (fun _ _ => BLACK) ⟨0, 0⟩ [⟨-128, 0⟩, ⟨-128, 0⟩]
  refine ⟨writes, hrun, fun hall => ?_⟩
  have hinside := hiff.mp hall [⟨-128, 0⟩, ⟨-128, 0⟩] (List.prefix_refl _)
  have hleft : (0 : ℤ) ≤ (cursorPosition ⟨200, 200⟩ [⟨-128, 0⟩, ⟨-128, 0⟩]).x := hinside.1.1
  exact absurd hleft (by decide)

end TommyOS
