import TommyOS.Window.Window

/-!
# What a window draws

The loops of `DrawTo` write every pixel of the window that is not transparent, each once.
-/

namespace TommyOS
namespace Window

open WriteLog

variable {window : Window} {p pos : Vector2D ℤ} {c : PixelColor}

/-- The colour of a pixel of the window, unless it is the transparent colour. -/
def visibleAt (window : Window) (p : Vector2D ℤ) : Option PixelColor :=
  (window.at' p).filter fun c => window.transparentColor ≠ some c

/-- The window's pixels, by row and column. -/
theorem at'_eq_some_iff :
    window.at' p = some c ↔ ∃ y x, window.data y x = c ∧ p = ⟨x.val, y.val⟩ := by
  unfold at'
  constructor
  · intro h
    split at h
    · rename_i hin
      refine ⟨_, _, Option.some.inj h, ?_⟩
      have hx : ((p.x.toNat : ℕ) : ℤ) = p.x := Int.toNat_of_nonneg hin.2.1
      have hy : ((p.y.toNat : ℕ) : ℤ) = p.y := Int.toNat_of_nonneg hin.1.1
      simp only [hx, hy]
    · exact absurd h (by simp)
  · intro h
    obtain ⟨y, x, hc, hp⟩ := h
    have hy := y.isLt
    have hx := x.isLt
    rw [hp, dif_pos (by simp only; omega), ← hc]
    rfl

/-- Inside the table `At` is defined. -/
theorem exists_at' (hx : 0 ≤ p.x ∧ p.x < window.width) (hy : 0 ≤ p.y ∧ p.y < window.height) :
    ∃ c, window.at' p = some c := by
  unfold at'
  rw [dif_pos ⟨hy, hx⟩]
  exact ⟨_, rfl⟩

theorem visibleAt_eq_some_iff : window.visibleAt p = some c ↔
    (∃ y x, window.data y x = c ∧ p = ⟨x.val, y.val⟩) ∧ window.transparentColor ≠ some c := by
  unfold visibleAt
  rw [Option.filter_eq_some_iff, at'_eq_some_iff, decide_eq_true_iff]

/-- The coordinates of a write, relative to the window. -/
theorem eq_add_iff (x y : ℤ) :
    p = ⟨pos.x + x, pos.y + y⟩ ↔ (⟨p.x - pos.x, p.y - pos.y⟩ : Vector2D ℤ) = ⟨x, y⟩ := by
  obtain ⟨px, py⟩ := p
  simp only [Vector2D.mk.injEq]
  omega

/-- The writes of `DrawTo`. -/
theorem mem_drawTo : (p, c) ∈ window.drawTo pos ↔
    window.visibleAt ⟨p.x - pos.x, p.y - pos.y⟩ = some c := by
  rw [visibleAt_eq_some_iff]
  unfold drawTo
  cases htc : window.transparentColor with
  | none =>
    -- the opaque loops draw every pixel, and every pixel is visible
    simp only [List.mem_flatMap, List.mem_map, List.mem_finRange, true_and, Prod.mk.injEq,
      eq_comm (b := p), eq_add_iff, ne_eq, reduceCtorEq, not_false_eq_true, and_true,
      and_comm (a := _ = c)]
  | some tc =>
    simp only [List.mem_flatMap, List.mem_filterMap, List.mem_finRange, true_and,
      Option.ite_none_right_eq_some, Option.some.injEq, Prod.mk.injEq, eq_comm (b := p),
      eq_add_iff]
    constructor
    · intro h
      obtain ⟨y, x, hne, hp, hc⟩ := h
      exact ⟨⟨y, x, hc, hp⟩, fun heq => hne (hc.trans (Option.some.inj heq).symm)⟩
    · intro h
      obtain ⟨⟨y, x, hc, hp⟩, hne⟩ := h
      exact ⟨y, x, fun heq => hne (congrArg some (heq.symm.trans hc)), hp, hc⟩

/-- The last write of `DrawTo` to a pixel. -/
theorem lastWrite_drawTo :
    lastWrite (window.drawTo pos) p = window.visibleAt ⟨p.x - pos.x, p.y - pos.y⟩ := by
  cases hvisible : window.visibleAt ⟨p.x - pos.x, p.y - pos.y⟩ with
  | none =>
    rw [lastWrite_eq_none_iff]
    intro w hw hwp
    rw [show w = (p, w.2) from Prod.ext hwp rfl, mem_drawTo, hvisible] at hw
    exact absurd hw (by simp)
  | some c =>
    apply lastWrite_eq_some_of_unique (mem_drawTo.mpr hvisible)
    intro c' hc'
    rw [mem_drawTo, hvisible] at hc'
    exact (Option.some.inj hc').symm

/-- Every write of `DrawTo` is to a pixel of the window. -/
theorem drawTo_inside {w : PixelWrite} (hw : w ∈ window.drawTo pos) :
    (pos.x ≤ w.1.x ∧ w.1.x < pos.x + window.width) ∧
      pos.y ≤ w.1.y ∧ w.1.y < pos.y + window.height := by
  obtain ⟨⟨y, x, _, hp⟩, _⟩ := visibleAt_eq_some_iff.mp (mem_drawTo.mp hw)
  rw [Vector2D.mk.injEq] at hp
  have hx := x.isLt
  have hy := y.isLt
  omega

/-! ## Writing to a window -/

/-- A window as a store of pixels, for `WindowWriter`. -/
def cells : CellStore Window (Vector2D ℤ) PixelColor where
  write := Window.write
  read window p := (window.at' p).getD BLACK

/-- The windows of one size and transparent colour. -/
def Shaped (width height : ℕ) (transparentColor : Option PixelColor) : Set Window :=
  {window | (window.width = width ∧ window.height = height) ∧
    window.transparentColor = transparentColor}

/-- The pixels of a window of some size. -/
def area (width height : ℕ) : Set (Vector2D ℤ) :=
  {p | (0 ≤ p.x ∧ p.x < width) ∧ 0 ≤ p.y ∧ p.y < height}

theorem mem_area {width height : ℕ} : p ∈ area width height ↔
    (0 ≤ p.x ∧ p.x < width) ∧ 0 ≤ p.y ∧ p.y < height := Iff.rfl

theorem cells_lawful (width height : ℕ) (tc : Option PixelColor) :
    cells.Lawful (Shaped width height tc) (area width height) := by
  intro window hvalid p hp c
  obtain ⟨⟨hw, hh⟩, htc⟩ := hvalid
  obtain ⟨hpx, hpy⟩ := hp
  have hin : (0 ≤ p.y ∧ p.y < window.height) ∧ 0 ≤ p.x ∧ p.x < window.width := by
    rw [hw, hh]
    exact ⟨hpy, hpx⟩
  refine ⟨_, ?_, dif_pos hin, fun q hq => ?_⟩
  · exact ⟨⟨hw, hh⟩, htc⟩
  · obtain ⟨hqx, hqy⟩ := hq
    have hqin : (0 ≤ q.y ∧ q.y < window.height) ∧ 0 ≤ q.x ∧ q.x < window.width := by
      rw [hw, hh]
      exact ⟨hqy, hqx⟩
    simp only [cells, at', dif_pos hqin, Option.getD_some, Function.update_apply]
    -- two positions in the table are equal exactly when their row and column are
    by_cases hy : q.y = p.y
    · by_cases hx : q.x = p.x
      · have hqp : q = p := by
          obtain ⟨px, py⟩ := p
          obtain ⟨qx, qy⟩ := q
          rw [Vector2D.mk.injEq]
          exact ⟨hx, hy⟩
        simp [hqp]
      · have hne : q ≠ p := fun h => hx (congrArg Vector2D.x h)
        have hcol : ¬ q.x.toNat = p.x.toNat := by omega
        simp [hne, hcol, hy]
    · have hne : q ≠ p := fun h => hy (congrArg Vector2D.y h)
      have hrow : ¬ q.y.toNat = p.y.toNat := by omega
      simp [hne, hrow]

end Window
end TommyOS
