import TommyOS.Console.ConsoleRuns
import TommyOS.Lib.TransitionSystem
import TommyOS.Window.WindowTheorems
import TommyOS.Graphics.GraphicsTheorems

/-!
# What the console draws agrees with `Refresh`

The console together with the pixels of its writers. A writer is any store of pixels on
which `Write` is defined inside the console area and changes its own pixel only; frame
buffers and windows that are large enough are such stores. Nothing but the console changes
the area of the current writer. Then the area always looks as if it had just been redrawn
from `buffer_`.
-/

namespace TommyOS

open WriteLog

/-- The console, and what each writer draws on. -/
structure ConsoleState (W σ : Type) where
  con : Console W
  display : W → σ

namespace Console

variable {W σ : Type} [DecidableEq W]

/-- The area is entirely in one colour. -/
def Blank (cs : CellStore σ (Vector2D ℤ) PixelColor) (bgColor : PixelColor) (s : σ) : Prop :=
  ∀ p ∈ area, cs.read s p = bgColor

/-- A `PutString` on the current writer, a `SetWriter`, where a writer that is new has the
area in the background colour, or anything else that leaves the area of the current writer
alone (such as a `Draw` of the layer manager). -/
inductive ConsoleStep (font : Font) (cs : CellStore σ (Vector2D ℤ) PixelColor) (valid : Set σ) :
    ConsoleState W σ → ConsoleState W σ → Prop where
  | putString {st : ConsoleState W σ} {con : Console W} {writes : List PixelWrite} {w : W}
      {s : σ} (string : CString) : st.con.writer = some w →
      st.con.putString font string.chars = some (con, writes) →
      cs.replay (st.display w) writes = some s →
      ConsoleStep font cs valid st ⟨con, Function.update st.display w s⟩
  | setWriter {st : ConsoleState W σ} {con : Console W} {writes : List PixelWrite} {s : σ}
      (w : W) : (st.con.writer ≠ some w → Blank cs st.con.bgColor (st.display w)) →
      st.con.setWriter font (some w) = some (con, writes) →
      cs.replay (st.display w) writes = some s →
      ConsoleStep font cs valid st ⟨con, Function.update st.display w s⟩
  | other {st : ConsoleState W σ} {display : W → σ} : (∀ w, display w ∈ valid) →
      (∀ w, st.con.writer = some w →
        ∀ p ∈ area, cs.read (display w) p = cs.read (st.display w) p) →
      ConsoleStep font cs valid st ⟨st.con, display⟩

/-- The runs of a console from its constructor on. -/
def consoleSystem (font : Font) (cs : CellStore σ (Vector2D ℤ) PixelColor) (valid : Set σ)
    (fgColor bgColor : PixelColor) : TransitionSystem (ConsoleState W σ) where
  init st := st.con = new fgColor bgColor ∧ ∀ w, st.display w ∈ valid
  step := ConsoleStep font cs valid

/-- The area of the current writer is what `Refresh` makes of a blank one. -/
def AgreesWithRefresh (font : Font) (cs : CellStore σ (Vector2D ℤ) PixelColor) (valid : Set σ)
    (st : ConsoleState W σ) : Prop :=
  ∀ w, st.con.writer = some w → ∀ s₀ ∈ valid, Blank cs st.con.bgColor s₀ →
    ∃ writes s, st.con.refresh font = some writes ∧ cs.replay s₀ writes = some s ∧
      ∀ p ∈ area, cs.read (st.display w) p = cs.read s p

/-- The calls that may come next are defined, with all their writes. -/
structure CallsDefined (font : Font) (cs : CellStore σ (Vector2D ℤ) PixelColor)
    (st : ConsoleState W σ) : Prop where
  putString : ∀ w, st.con.writer = some w → ∀ string : CString, ∃ con writes s,
    st.con.putString font string.chars = some (con, writes) ∧
      cs.replay (st.display w) writes = some s
  setWriter : ∀ w : W, ∃ con writes s,
    st.con.setWriter font (some w) = some (con, writes) ∧
      cs.replay (st.display w) writes = some s

section Runs

variable {font : Font} {cs : CellStore σ (Vector2D ℤ) PixelColor} {valid : Set σ}
  {fgColor bgColor : PixelColor} {st st' : ConsoleState W σ}

/-- The invariant: the console shows some layout, and so does the area of the current
writer. -/
structure DrawsLayout (font : Font) (cs : CellStore σ (Vector2D ℤ) PixelColor) (valid : Set σ)
    (st : ConsoleState W σ) (layout : Layout (BitVec 8)) : Prop where
  shows : st.con.Shows layout
  printable : Printable layout
  valid : ∀ w, st.display w ∈ valid
  picture : ∀ w, st.con.writer = some w → ∀ p ∈ area, cs.read (st.display w) p =
    (lastWrite (screenWrites font st.con.fgColor (layout.visible kRows)) p).getD st.con.bgColor

omit [DecidableEq W] in
theorem drawsLayout_init (hcon : st.con = new fgColor bgColor)
    (hvalid : ∀ w, st.display w ∈ valid) : DrawsLayout font cs valid st Layout.empty := by
  refine ⟨?_, printable_empty, hvalid, fun w hw => ?_⟩
  · rw [hcon]
    exact shows_new fgColor bgColor
  · rw [hcon] at hw
    exact absurd hw (Option.some_ne_none w).symm

omit [DecidableEq W] in
/-- Drawing the rows of the layout on a blank area shows them. -/
theorem replay_screenWrites (font : Font) (fgColor : PixelColor)
    (hlawful : cs.Lawful valid area) {layout : Layout (BitVec 8)}
    (hprintable : Printable layout) {s₀ : σ} (hs₀ : s₀ ∈ valid)
    (hblank : Blank cs bgColor s₀) :
    ∃ s ∈ valid, cs.replay s₀ (screenWrites font fgColor (layout.visible kRows)) = some s ∧
      ∀ p ∈ area, cs.read s p =
        (lastWrite (screenWrites font fgColor (layout.visible kRows)) p).getD bgColor := by
  obtain ⟨s, hs, hreplay, hread⟩ :=
    hlawful.replay hs₀ fun w hw => screenWrites_area hprintable.visible hw
  refine ⟨s, hs, hreplay, fun p hp => ?_⟩
  rw [hread p hp, hblank p hp]

theorem mem_valid_update (hvalid : ∀ w, st.display w ∈ valid) {w : W} {s : σ} (hs : s ∈ valid)
    (v : W) : Function.update st.display w s v ∈ valid := by
  by_cases hv : v = w
  · rw [hv, Function.update_self]
    exact hs
  · rw [Function.update_of_ne hv]
    exact hvalid v

/-- `PutString` is defined, and afterwards console and writer show the new layout. -/
theorem DrawsLayout.putString (hlawful : cs.Lawful valid area) {layout : Layout (BitVec 8)}
    (h : DrawsLayout font cs valid st layout) {w : W} (hwriter : st.con.writer = some w)
    (string : CString) :
    ∃ con writes s, st.con.putString font string.chars = some (con, writes) ∧
      cs.replay (st.display w) writes = some s ∧ st.con.SameSetup con ∧
      DrawsLayout font cs valid ⟨con, Function.update st.display w s⟩
        (string.chars.foldl (Layout.consoleStep kColumns newlineChar) layout) := by
  obtain ⟨con, writes, hcall, hprints, hprintable⟩ :=
    putString_prints font hwriter h.shows h.printable string.noNul
  obtain ⟨s, hs, hreplay, hread⟩ := hlawful.replay (h.valid w) hprints.redraws.area
  refine ⟨con, writes, s, hcall, hreplay, hprints.setup, hprints.shows, hprintable,
    mem_valid_update h.valid hs, fun v hv p hp => ?_⟩
  have hsame : v = w := Option.some.inj (hv.symm.trans (hprints.setup.writer.trans hwriter))
  show cs.read (Function.update st.display w s v) p =
    (lastWrite (screenWrites font con.fgColor _) p).getD con.bgColor
  -- the old picture of the area, and the writes that turn it into the new one
  rw [hsame, Function.update_self, hread p hp, h.picture w hwriter p hp, hprints.setup.fgColor,
    hprints.setup.bgColor]
  exact hprints.redraws.picture p hp

/-- `SetWriter` is defined. -/
theorem DrawsLayout.setWriter_defined (hlawful : cs.Lawful valid area)
    {layout : Layout (BitVec 8)} (h : DrawsLayout font cs valid st layout) (w : W) :
    ∃ con writes s, st.con.setWriter font (some w) = some (con, writes) ∧
      cs.replay (st.display w) writes = some s := by
  by_cases hsame : st.con.writer = some w
  · refine ⟨st.con, [], st.display w, ?_, rfl⟩
    unfold setWriter
    rw [if_pos hsame.symm]
  · obtain ⟨s, _, hreplay, _⟩ := hlawful.replay (h.valid w) fun p hp =>
      screenWrites_area h.printable.visible hp
    exact ⟨_, _, s, setWriter_eq font hsame h.shows h.printable, hreplay⟩

/-- After `SetWriter` console and writer show the layout: nothing happens for the current
writer, and a new one is drawn on from blank. -/
theorem DrawsLayout.setWriter (hlawful : cs.Lawful valid area) {layout : Layout (BitVec 8)}
    (h : DrawsLayout font cs valid st layout) {w : W}
    (hblank : st.con.writer ≠ some w → Blank cs st.con.bgColor (st.display w))
    {con : Console W} {writes : List PixelWrite} {s : σ}
    (hcall : st.con.setWriter font (some w) = some (con, writes))
    (hreplay : cs.replay (st.display w) writes = some s) :
    DrawsLayout font cs valid ⟨con, Function.update st.display w s⟩ layout := by
  by_cases hsame : st.con.writer = some w
  · -- `SetWriter` returns early, so the display keeps its contents
    unfold Console.setWriter at hcall
    rw [if_pos hsame.symm, Option.some.injEq, Prod.mk.injEq] at hcall
    rw [← hcall.2] at hreplay
    have hs : s = st.display w := (Option.some.inj hreplay).symm
    rw [← hcall.1, hs, Function.update_eq_self]
    exact ⟨h.shows, h.printable, h.valid, h.picture⟩
  · rw [setWriter_eq font hsame h.shows h.printable, Option.some.injEq, Prod.mk.injEq] at hcall
    obtain ⟨s', hs', hreplay', hread⟩ :=
      replay_screenWrites font st.con.fgColor hlawful h.printable (h.valid w) (hblank hsame)
    rw [← hcall.2, hreplay'] at hreplay
    rw [← hcall.1, ← Option.some.inj hreplay]
    refine ⟨h.shows.withWriter _, h.printable, mem_valid_update h.valid hs',
      fun v hv p hp => ?_⟩
    have hvw : v = w := (Option.some.inj hv).symm
    show cs.read (Function.update st.display w s' v) p = _
    rw [hvw, Function.update_self]
    exact hread p hp

/-- Every step keeps console and writer showing one layout. -/
theorem drawsLayout_step (hlawful : cs.Lawful valid area) {layout : Layout (BitVec 8)}
    (h : DrawsLayout font cs valid st layout) (hstep : ConsoleStep font cs valid st st') :
    ∃ layout', DrawsLayout font cs valid st' layout' := by
  cases hstep with
  | putString string hwriter hcall hreplay =>
    obtain ⟨con, writes, s, hcall', hreplay', -, hdraws⟩ := h.putString hlawful hwriter string
    rw [hcall, Option.some.injEq, Prod.mk.injEq] at hcall'
    rw [← hcall'.2, hreplay] at hreplay'
    rw [hcall'.1, Option.some.inj hreplay']
    exact ⟨_, hdraws⟩
  | setWriter w hblank hcall hreplay =>
    exact ⟨layout, h.setWriter hlawful hblank hcall hreplay⟩
  | other hvalid hsame =>
    refine ⟨layout, h.shows, h.printable, hvalid, fun w hw p hp => ?_⟩
    rw [← h.picture w hw p hp]
    exact hsame w hw p hp

theorem drawsLayout_reachable (hlawful : cs.Lawful valid area)
    (hreach : (consoleSystem font cs valid fgColor bgColor).Reachable st) :
    ∃ layout, DrawsLayout font cs valid st layout := by
  apply hreach.invariant (P := fun st => ∃ layout, DrawsLayout font cs valid st layout)
  · intro st hst
    exact ⟨_, drawsLayout_init hst.1 hst.2⟩
  · intro st st' _ ih hstep
    obtain ⟨layout, h⟩ := ih
    exact drawsLayout_step hlawful h hstep

/-- In every state of a run the area of the current writer is what `Refresh` would draw on a
blank one, and the next call is defined. -/
theorem consoleSystem_agrees (hlawful : cs.Lawful valid area)
    (hreach : (consoleSystem font cs valid fgColor bgColor).Reachable st) :
    AgreesWithRefresh font cs valid st ∧ CallsDefined font cs st := by
  obtain ⟨layout, h⟩ := drawsLayout_reachable hlawful hreach
  refine ⟨fun w hw s₀ hs₀ hblank => ?_, fun w hw string => ?_, fun w => ?_⟩
  -- both areas show the rows of the layout on the background
  · obtain ⟨s, _, hreplay, hread⟩ :=
      replay_screenWrites font st.con.fgColor hlawful h.printable hs₀ hblank
    refine ⟨_, s, refresh_eq font hw h.shows h.printable, hreplay, fun p hp => ?_⟩
    rw [h.picture w hw p hp, hread p hp]
  · obtain ⟨con, writes, s, hcall, hreplay, _⟩ := h.putString hlawful hw string
    exact ⟨con, writes, s, hcall, hreplay⟩
  · exact h.setWriter_defined hlawful w

end Runs

/-! ## The writers of the kernel -/

/-- The frame buffer, for one of its writers, or a window. -/
def kernelCells (writer : FrameBufferWriter) :
    CellStore ((ℕ → BitVec 8) ⊕ Window) (Vector2D ℤ) PixelColor :=
  writer.cells.sum Window.cells

/-- Any memory, or a window of one size. -/
def KernelWriters (width height : ℕ) : Set ((ℕ → BitVec 8) ⊕ Window) :=
  {s | Sum.elim (· ∈ (Set.univ : Set (ℕ → BitVec 8))) (· ∈ Window.Shaped width height none) s}

/-- A frame buffer and windows that are large enough cover the area. -/
theorem kernelCells_lawful {writer : FrameBufferWriter} (hfits : writer.config.Fits)
    {width height : ℕ} (hx : 8 * kColumns ≤ writer.config.horizontalResolution.toNat)
    (hy : 16 * kRows ≤ writer.config.verticalResolution.toNat) (hwidth : 8 * kColumns ≤ width)
    (hheight : 16 * kRows ≤ height) :
    (kernelCells writer).Lawful (KernelWriters width height) area := by
  apply CellStore.Lawful.sum
  · apply (FrameBufferWriter.cells_lawful hfits).mono
    intro p hp
    rw [mem_area] at hp
    rw [FrameBufferConfig.mem_screen]
    omega
  · apply (Window.cells_lawful width height none).mono
    intro p hp
    rw [mem_area] at hp
    rw [Window.mem_area]
    omega

/-- A frame buffer of 640 by 400 pixels. -/
def textWriter : FrameBufferWriter :=
  newPixelWriter ⟨0x80000000, 640, 640, 400, .kPixelBGRResv8BitPerColor⟩

theorem textWriter_fits : textWriter.config.Fits := ⟨by decide, by decide⟩

/-- A black screen and a new window. -/
def blackDisplay (isWindow : Bool) : (ℕ → BitVec 8) ⊕ Window :=
  if isWindow then .inr (Window.new 640 400) else .inl fun _ => 0

theorem blackDisplay_valid (w : Bool) : blackDisplay w ∈ KernelWriters 640 400 := by
  cases w with
  | false => exact trivial
  | true => exact ⟨⟨rfl, rfl⟩, rfl⟩

theorem blackDisplay_blank (w : Bool) : Blank (kernelCells textWriter) BLACK (blackDisplay w) := by
  cases w with
  | false => exact fun p _ => rfl
  | true =>
    intro p _
    change ((Window.new 640 400).at' p).getD BLACK = BLACK
    unfold Window.at'
    split
    · rfl
    · rfl

/-- `A`, a newline and `B`. -/
def twoRows : CString := ⟨[0x41#8, newlineChar, 0x42#8], by decide⟩

/-- Two rows are printed on the frame buffer, and then the window becomes the writer. -/
theorem consoleSystem_agrees_window :
    ∃ st : ConsoleState Bool ((ℕ → BitVec 8) ⊕ Window),
      (consoleSystem filledFont (kernelCells textWriter) (KernelWriters 640 400) WHITE
        BLACK).Reachable st ∧ st.con.writer = some true ∧
      st.con.cursorRow = 1 ∧ st.con.cursorColumn = 1 ∧
      AgreesWithRefresh filledFont (kernelCells textWriter) (KernelWriters 640 400) st ∧
      CallsDefined filledFont (kernelCells textWriter) st := by
  have hlawful : (kernelCells textWriter).Lawful (KernelWriters 640 400) area :=
    kernelCells_lawful textWriter_fits (by decide) (by decide) (by decide) (by decide)
  have hstart : (consoleSystem filledFont (kernelCells textWriter) (KernelWriters 640 400) WHITE
      BLACK).Reachable ⟨new WHITE BLACK, blackDisplay⟩ := .start ⟨rfl, blackDisplay_valid⟩
  have hdraws : DrawsLayout filledFont (kernelCells textWriter) (KernelWriters 640 400)
      ⟨new WHITE BLACK, blackDisplay⟩ Layout.empty := drawsLayout_init rfl blackDisplay_valid
  -- the frame buffer
  have hscreen : Blank (kernelCells textWriter) BLACK (blackDisplay false) :=
    blackDisplay_blank false
  obtain ⟨con₁, writes₁, s₁, hcall₁, hreplay₁⟩ := hdraws.setWriter_defined hlawful false
  have hnext₁ := hstart.next (.setWriter false (fun _ => hscreen) hcall₁ hreplay₁)
  have hdraws₁ := hdraws.setWriter (w := false) hlawful (fun _ => hscreen) hcall₁ hreplay₁
  rw [setWriter_eq filledFont (Option.some_ne_none false).symm hdraws.shows hdraws.printable,
    Option.some.injEq, Prod.mk.injEq] at hcall₁
  rw [← hcall₁.1] at hnext₁ hdraws₁
  -- two rows
  obtain ⟨con₂, writes₂, s₂, hcall₂, hreplay₂, hsetup, hdraws₂⟩ :=
    hdraws₁.putString hlawful rfl twoRows
  have hnext₂ := hnext₁.next (.putString twoRows rfl hcall₂ hreplay₂)
  -- the window
  have hblank : Blank (kernelCells textWriter) con₂.bgColor
      (Function.update (Function.update blackDisplay false s₁) false s₂ true) := by
    rw [hsetup.bgColor]
    exact blackDisplay_blank true
  obtain ⟨con₃, writes₃, s₃, hcall₃, hreplay₃⟩ := hdraws₂.setWriter_defined hlawful true
  have hnext₃ := hnext₂.next (.setWriter true (fun _ => hblank) hcall₃ hreplay₃)
  have hdraws₃ := hdraws₂.setWriter (w := true) hlawful (fun _ => hblank) hcall₃ hreplay₃
  have hwriter : con₂.writer ≠ some true := by
    rw [hsetup.writer]
    exact fun h => absurd (Option.some.inj h) Bool.false_ne_true
  rw [setWriter_eq filledFont hwriter hdraws₂.shows hdraws₂.printable, Option.some.injEq,
    Prod.mk.injEq] at hcall₃
  have hrow : con₃.cursorRow + 1 = 2 := hdraws₃.shows.cursorRow
  refine ⟨_, hnext₃, ?_, Nat.succ.inj hrow, hdraws₃.shows.cursorColumn,
    consoleSystem_agrees hlawful hnext₃⟩
  rw [← hcall₃.1]

end Console
end TommyOS
