import TommyOS.Graphics.Graphics
import Mathlib.Tactic.Linarith

/-!
# The bytes of a frame buffer

Where the bytes of a pixel lie when the configuration is sound, and what a list of `Write`
calls leaves in them. `FrameShows` compares memory with a picture, byte by byte; a
frame buffer is then a store of pixels whose writes do not disturb one another.
-/

namespace TommyOS

open WriteLog

namespace FrameBufferConfig

/-- The pixels of the screen. -/
def screen (config : FrameBufferConfig) : Set (Vector2D ℤ) :=
  {p | (0 ≤ p.x ∧ p.x < config.horizontalResolution.toNat) ∧
    0 ≤ p.y ∧ p.y < config.verticalResolution.toNat}

theorem mem_screen {config : FrameBufferConfig} {p : Vector2D ℤ} :
    p ∈ config.screen ↔ (0 ≤ p.x ∧ p.x < config.horizontalResolution.toNat) ∧
      0 ≤ p.y ∧ p.y < config.verticalResolution.toNat := Iff.rfl

/-- Scan lines are as long as the screen is wide, and their bytes have 32-bit offsets. -/
structure Fits (config : FrameBufferConfig) : Prop where
  resolution : config.horizontalResolution.toNat ≤ config.pixelsPerScanLine.toNat
  size : 4 * config.pixelsPerScanLine.toNat * config.verticalResolution.toNat ≤ 2 ^ 32

/-- The address of byte `i` of the pixel in column `x` of scan line `y`. -/
def byteAddress (config : FrameBufferConfig) (x y i : ℕ) : ℕ :=
  config.frameBuffer + 4 * (config.pixelsPerScanLine.toNat * y + x) + i

/-- The number of bytes of the scan lines. -/
def byteCount (config : FrameBufferConfig) : ℕ :=
  4 * config.pixelsPerScanLine.toNat * config.verticalResolution.toNat

variable {config : FrameBufferConfig} {x y x' y' i i' : ℕ}

/-- A pixel's number lies before the numbers of the next scan line. -/
theorem pixelNumber_lt (hx : x < config.pixelsPerScanLine.toNat)
    (hy : y < config.verticalResolution.toNat) :
    config.pixelsPerScanLine.toNat * y + x <
      config.pixelsPerScanLine.toNat * config.verticalResolution.toNat := by
  calc config.pixelsPerScanLine.toNat * y + x
      < config.pixelsPerScanLine.toNat * y + config.pixelsPerScanLine.toNat := by omega
    _ = config.pixelsPerScanLine.toNat * (y + 1) := (Nat.mul_succ _ _).symm
    _ ≤ config.pixelsPerScanLine.toNat * config.verticalResolution.toNat :=
        Nat.mul_le_mul_left _ hy

theorem byteAddress_lt (hx : x < config.pixelsPerScanLine.toNat)
    (hy : y < config.verticalResolution.toNat) (hi : i < 4) :
    config.byteAddress x y i < config.frameBuffer + config.byteCount := by
  have hlt := pixelNumber_lt hx hy
  unfold byteAddress byteCount
  rw [Nat.mul_assoc]
  omega

/-- No two bytes of the scan lines share an address. -/
theorem byteAddress_inj (hx : x < config.pixelsPerScanLine.toNat)
    (hx' : x' < config.pixelsPerScanLine.toNat) (hi : i < 4) (hi' : i' < 4)
    (h : config.byteAddress x y i = config.byteAddress x' y' i') : x = x' ∧ y = y' ∧ i = i' := by
  unfold byteAddress at h
  have hnumber : config.pixelsPerScanLine.toNat * y + x =
      config.pixelsPerScanLine.toNat * y' + x' := by omega
  -- the scan line is the quotient of the pixel's number
  have hdiv : ∀ x y : ℕ, x < config.pixelsPerScanLine.toNat →
      (config.pixelsPerScanLine.toNat * y + x) / config.pixelsPerScanLine.toNat = y := by
    intro x y hx
    rw [Nat.mul_add_div (by omega), Nat.div_eq_of_lt hx, Nat.add_zero]
  have hy : y = y' := by rw [← hdiv x y hx, hnumber, hdiv x' y' hx']
  rw [hy] at hnumber
  exact ⟨by omega, hy, by omega⟩

end FrameBufferConfig

namespace FrameBufferWriter

variable {config : FrameBufferConfig}

/-- The 32-bit arithmetic of `PixelAt` does not wrap on the scan lines. -/
theorem pixelAt_eq (hfits : config.Fits) {x y : ℕ} (hx : x < config.pixelsPerScanLine.toNat)
    (hy : y < config.verticalResolution.toNat) :
    pixelAt config x y = config.byteAddress x y 0 := by
  have hlt := FrameBufferConfig.pixelNumber_lt hx hy
  have hsize := hfits.size
  rw [Nat.mul_assoc] at hsize
  have hxw := config.pixelsPerScanLine.isLt
  have hyw := config.verticalResolution.isLt
  -- four times the pixel's number is below `2 ^ 32`, so no product or sum is reduced
  have hproduct : config.pixelsPerScanLine.toNat * y < 2 ^ 32 := by omega
  have hfour : (4 : BitVec 32).toNat = 4 := rfl
  unfold pixelAt FrameBufferConfig.byteAddress
  rw [BitVec.ofInt_natCast, BitVec.ofInt_natCast, BitVec.toNat_mul, BitVec.toNat_add,
    BitVec.toNat_mul, hfour, BitVec.toNat_ofNat, BitVec.toNat_ofNat,
    Nat.mod_eq_of_lt (show y < 2 ^ 32 by omega), Nat.mod_eq_of_lt (show x < 2 ^ 32 by omega),
    Nat.mod_eq_of_lt hproduct]
  omega

/-! ## One pixel -/

/-- The byte that a writer stores at offset `i` of a pixel. -/
def colorByte : FrameBufferWriter → ℕ → PixelColor → BitVec 8
  | BGRResv8BitPerColorPixelWriter _, i, c => if i = 0 then c.b else if i = 1 then c.g else c.r
  | RGBResv8BitPerColorPixelWriter _, i, c => if i = 0 then c.r else if i = 1 then c.g else c.b

/-- `Write` stores the three colour bytes of its pixel. -/
theorem writeBytes_eq (writer : FrameBufferWriter) (w : PixelWrite) :
    writer.writeBytes w = (List.range 3).map fun i =>
      (pixelAt writer.config w.1.x w.1.y + i, writer.colorByte i w.2) := by
  cases writer with
  | BGRResv8BitPerColorPixelWriter config => rfl
  | RGBResv8BitPerColorPixelWriter config => rfl

/-- The bytes a `Write` on the screen stores. -/
theorem mem_writeBytes {writer : FrameBufferWriter} (hfits : writer.config.Fits) {x y : ℕ}
    (hx : x < writer.config.horizontalResolution.toNat)
    (hy : y < writer.config.verticalResolution.toNat) {c : PixelColor} {st : ℕ × BitVec 8} :
    st ∈ writer.writeBytes (⟨x, y⟩, c) ↔
      ∃ i < 3, st = (writer.config.byteAddress x y i, writer.colorByte i c) := by
  have hres := hfits.resolution
  rw [writeBytes_eq, List.mem_map]
  simp only [List.mem_range, pixelAt_eq hfits (show x < _ by omega) hy,
    FrameBufferConfig.byteAddress, Nat.add_zero, eq_comm (a := st)]

/-- `Write` on the screen stores inside the frame buffer. -/
theorem writeBytes_inside {writer : FrameBufferWriter} (hfits : writer.config.Fits)
    {w : PixelWrite} (hw : w.1 ∈ writer.config.screen) {st : ℕ × BitVec 8}
    (hst : st ∈ writer.writeBytes w) :
    writer.config.frameBuffer ≤ st.1 ∧
      st.1 < writer.config.frameBuffer + writer.config.byteCount := by
  obtain ⟨⟨px, py⟩, c⟩ := w
  obtain ⟨⟨hx0, hx⟩, hy0, hy⟩ := hw
  simp only at hx0 hx hy0 hy
  lift px to ℕ using hx0
  lift py to ℕ using hy0
  have hres := hfits.resolution
  obtain ⟨i, hi, heq⟩ := (mem_writeBytes hfits (by omega) (by omega)).mp hst
  rw [heq]
  refine ⟨?_, FrameBufferConfig.byteAddress_lt (by omega) (by omega) (by omega)⟩
  unfold FrameBufferConfig.byteAddress
  omega

/-- The last store of a `Write` to each of its bytes. -/
theorem lastWrite_writeBytes {writer : FrameBufferWriter} (hfits : writer.config.Fits)
    {x y i : ℕ} (hx : x < writer.config.horizontalResolution.toNat)
    (hy : y < writer.config.verticalResolution.toNat) (hi : i < 3) (c : PixelColor) :
    lastWrite (writer.writeBytes (⟨x, y⟩, c)) (writer.config.byteAddress x y i)
      = some (writer.colorByte i c) := by
  have hres := hfits.resolution
  apply lastWrite_eq_some_of_unique
  · rw [mem_writeBytes hfits hx hy]
    exact ⟨i, hi, rfl⟩
  · intro v hv
    rw [mem_writeBytes hfits hx hy] at hv
    obtain ⟨j, hj, heq⟩ := hv
    have haddr := FrameBufferConfig.byteAddress_inj (show x < _ by omega) (show x < _ by omega)
      (show i < 4 by omega) (show j < 4 by omega) (congrArg Prod.fst heq)
    rw [haddr.2.2]
    exact congrArg Prod.snd heq

/-- A `Write` on the screen leaves every other byte alone. -/
theorem lastWrite_writeBytes_eq_none {writer : FrameBufferWriter} (hfits : writer.config.Fits)
    {w : PixelWrite} (hw : w.1 ∈ writer.config.screen) {a : ℕ}
    (ha : ∀ x y i : ℕ, w.1 = ⟨x, y⟩ → i < 3 → writer.config.byteAddress x y i ≠ a) :
    lastWrite (writer.writeBytes w) a = none := by
  obtain ⟨⟨px, py⟩, c⟩ := w
  obtain ⟨⟨hx0, hx⟩, hy0, hy⟩ := hw
  simp only at hx0 hx hy0 hy
  lift px to ℕ using hx0
  lift py to ℕ using hy0
  rw [lastWrite_eq_none_iff]
  intro st hst
  rw [mem_writeBytes hfits (by omega) (by omega)] at hst
  obtain ⟨i, hi, heq⟩ := hst
  rw [heq]
  exact ha px py i rfl hi

/-! ## A list of `Write` calls -/

/-- Memory `mem'` shows a picture on top of `mem`: the colour bytes of the pixels that the
picture covers are those of its colours, and all other bytes are as before. -/
structure FrameShows (writer : FrameBufferWriter) (picture : Vector2D ℤ → Option PixelColor)
    (mem mem' : ℕ → BitVec 8) : Prop where
  colors : ∀ x y i, x < writer.config.horizontalResolution.toNat →
    y < writer.config.verticalResolution.toNat → i < 3 →
    mem' (writer.config.byteAddress x y i) =
      ((picture ⟨x, y⟩).map (writer.colorByte i)).getD (mem (writer.config.byteAddress x y i))
  reserved : ∀ x y, x < writer.config.horizontalResolution.toNat →
    y < writer.config.verticalResolution.toNat →
    mem' (writer.config.byteAddress x y 3) = mem (writer.config.byteAddress x y 3)
  padding : ∀ x y i, writer.config.horizontalResolution.toNat ≤ x →
    x < writer.config.pixelsPerScanLine.toNat → y < writer.config.verticalResolution.toNat →
    i < 4 → mem' (writer.config.byteAddress x y i) = mem (writer.config.byteAddress x y i)
  outside : ∀ a, a < writer.config.frameBuffer ∨
    writer.config.frameBuffer + writer.config.byteCount ≤ a → mem' a = mem a

variable {writer : FrameBufferWriter} {writes : List PixelWrite}

theorem writeAll_apply (mem : ℕ → BitVec 8) (a : ℕ) :
    writer.writeAll mem writes a = (lastWrite (writes.flatMap writer.writeBytes) a).getD (mem a) :=
  store_apply _ _ _

/-- A byte that is no colour byte of the screen keeps its value. -/
theorem writeAll_of_not_color (hfits : writer.config.Fits)
    (hwrites : ∀ w ∈ writes, w.1 ∈ writer.config.screen) (mem : ℕ → BitVec 8) {a : ℕ}
    (ha : ∀ x y i, x < writer.config.horizontalResolution.toNat →
      y < writer.config.verticalResolution.toNat → i < 3 →
      writer.config.byteAddress x y i ≠ a) :
    writer.writeAll mem writes a = mem a := by
  rw [writeAll_apply, lastWrite_encode_eq_none]
  · rfl
  · intro w hw
    have hscreen := hwrites w hw
    apply lastWrite_writeBytes_eq_none hfits hscreen
    intro x y i hxy hi
    rw [hxy, FrameBufferConfig.mem_screen] at hscreen
    simp only at hscreen
    exact ha x y i (by omega) (by omega) hi

/-- `Write` calls on the screen show the last colour written to each pixel. -/
theorem writeAll_shows (hfits : writer.config.Fits)
    (hwrites : ∀ w ∈ writes, w.1 ∈ writer.config.screen) (mem : ℕ → BitVec 8) :
    FrameShows writer (lastWrite writes) mem (writer.writeAll mem writes) := by
  have hres := hfits.resolution
  refine ⟨fun x y i hx hy hi => ?_, fun x y hx hy => ?_, fun x y i hx hx' hy hi => ?_,
    fun a ha => ?_⟩
  · rw [writeAll_apply, lastWrite_encode (k := (⟨x, y⟩ : Vector2D ℤ))
      (lastWrite_writeBytes hfits hx hy hi)]
    -- a `Write` to another pixel stores to other addresses
    intro w hw hne
    apply lastWrite_writeBytes_eq_none hfits (hwrites w hw)
    intro x' y' i' hxy hi' heq
    have hscreen := hwrites w hw
    rw [hxy, FrameBufferConfig.mem_screen] at hscreen
    simp only at hscreen
    have hinj := FrameBufferConfig.byteAddress_inj (show x' < _ by omega) (show x < _ by omega)
      (show i' < 4 by omega) (show i < 4 by omega) heq
    rw [hinj.1, hinj.2.1] at hxy
    exact hne hxy
  · -- the fourth byte of a pixel is no colour byte
    apply writeAll_of_not_color hfits hwrites
    intro x' y' i' hx' hy' hi' heq
    have hinj := FrameBufferConfig.byteAddress_inj (show x' < _ by omega) (show x < _ by omega)
      (show i' < 4 by omega) (show 3 < 4 by omega) heq
    omega
  · -- nor are the bytes of the padding, whose column is past the resolution
    apply writeAll_of_not_color hfits hwrites
    intro x' y' i' hxs hys hi' heq
    have hinj := FrameBufferConfig.byteAddress_inj (show x' < _ by omega) hx'
      (show i' < 4 by omega) hi heq
    omega
  · apply writeAll_of_not_color hfits hwrites
    intro x y i hx hy hi heq
    have hlt := FrameBufferConfig.byteAddress_lt (show x < _ by omega) hy (show i < 4 by omega)
    have hge : writer.config.frameBuffer ≤ writer.config.byteAddress x y i := by
      unfold FrameBufferConfig.byteAddress
      omega
    omega

/-! ## The frame buffer as a store of pixels -/

/-- The colour in the bytes of a pixel. -/
def colorAt (writer : FrameBufferWriter) (mem : ℕ → BitVec 8) (p : Vector2D ℤ) : PixelColor :=
  let a := pixelAt writer.config p.x p.y
  match writer with
  | BGRResv8BitPerColorPixelWriter _ => ⟨mem (a + 2), mem (a + 1), mem (a + 0)⟩
  | RGBResv8BitPerColorPixelWriter _ => ⟨mem (a + 0), mem (a + 1), mem (a + 2)⟩

/-- The frame buffer as a store of pixels. -/
def cells (writer : FrameBufferWriter) : CellStore (ℕ → BitVec 8) (Vector2D ℤ) PixelColor where
  write mem p c := some (writer.writeAll mem [(p, c)])
  read := writer.colorAt

/-- A colour is determined by its bytes. -/
theorem colorAt_eq_iff {mem : ℕ → BitVec 8} {p : Vector2D ℤ} {c : PixelColor} :
    writer.colorAt mem p = c ↔
      ∀ i < 3, mem (pixelAt writer.config p.x p.y + i) = writer.colorByte i c := by
  have hthree : ∀ P : ℕ → Prop, (∀ i < 3, P i) ↔ P 0 ∧ P 1 ∧ P 2 := by
    intro P
    refine ⟨fun h => ⟨h 0 (by omega), h 1 (by omega), h 2 (by omega)⟩, fun h i hi => ?_⟩
    rcases show i = 0 ∨ i = 1 ∨ i = 2 by omega with hi | hi | hi
    · exact hi ▸ h.1
    · exact hi ▸ h.2.1
    · exact hi ▸ h.2.2
  rw [hthree]
  obtain ⟨r, g, b⟩ := c
  cases writer with
  | BGRResv8BitPerColorPixelWriter config =>
    simp only [colorAt, colorByte, PixelColor.mk.injEq]
    exact ⟨fun h => ⟨h.2.2, h.2.1, h.1⟩, fun h => ⟨h.2.2, h.2.1, h.1⟩⟩
  | RGBResv8BitPerColorPixelWriter config =>
    simp only [colorAt, colorByte, PixelColor.mk.injEq]
    exact Iff.rfl

/-- On the screen a `Write` changes the colour of its own pixel only. -/
theorem cells_lawful (hfits : writer.config.Fits) :
    writer.cells.Lawful Set.univ writer.config.screen := by
  intro mem _ p hp c
  refine ⟨_, trivial, rfl, fun q hq => ?_⟩
  have hwrites : ∀ w ∈ [(p, c)], w.1 ∈ writer.config.screen := by
    intro w hw
    rw [List.mem_singleton.mp hw]
    exact hp
  have hshows := writeAll_shows hfits hwrites mem
  have hres := hfits.resolution
  obtain ⟨qx, qy⟩ := q
  obtain ⟨⟨hx0, hx⟩, hy0, hy⟩ := hq
  -- a pixel of the screen has natural coordinates, which the address of its cell is made of
  simp only at hx0 hx hy0 hy
  lift qx to ℕ using hx0
  lift qy to ℕ using hy0
  have haddr := pixelAt_eq hfits (show qx < _ by omega) (show qy < _ by omega)
  apply colorAt_eq_iff.mpr
  intro i hi
  have hbyte := hshows.colors qx qy i (by omega) (by omega) hi
  rw [haddr]
  show writer.writeAll mem [(p, c)] (writer.config.byteAddress qx qy i) = _
  rw [hbyte, lastWrite_cons, lastWrite_nil, Option.none_or]
  by_cases hqp : p = ⟨qx, qy⟩
  · rw [if_pos hqp, if_pos hqp.symm]
    rfl
  · rw [if_neg hqp, if_neg (Ne.symm hqp)]
    have hold := (@colorAt_eq_iff writer mem ⟨qx, qy⟩ _).mp rfl i hi
    rw [haddr] at hold
    exact hold

end FrameBufferWriter

theorem config_newPixelWriter (config : FrameBufferConfig) :
    (newPixelWriter config).config = config := by
  unfold newPixelWriter
  split
  · rfl
  · rfl

end TommyOS
