import Mathlib.Data.List.Induction
import Mathlib.Data.List.Infix

/-!
# Laying out text in rows

Text cut into rows of a fixed width, in two ways. `reference` is what a console is for: a
newline ends the row, and a character for which the row has no room starts the next one.
`console` is what `Console::PutString` computes, where such a character only ends the row.
They agree on every prefix of a text exactly when its lines fit into the width.
-/

namespace TommyOS

/-- The rows that are complete, and the row that the cursor is on. -/
structure Layout (α : Type*) where
  complete : List (List α)
  current : List α

namespace Layout

variable {α : Type*}

def empty : Layout α := ⟨[], []⟩

/-- All rows, from the top. -/
def rows (layout : Layout α) : List (List α) := layout.complete ++ [layout.current]

/-- The last `height` rows. -/
def visible (height : ℕ) (layout : Layout α) : List (List α) :=
  layout.rows.drop (layout.rows.length - height)

def endRow (layout : Layout α) : Layout α := ⟨layout.complete ++ [layout.current], []⟩

def append (layout : Layout α) (c : α) : Layout α := ⟨layout.complete, layout.current ++ [c]⟩

section Step

variable [DecidableEq α] (width : ℕ) (newline : α)

/-- One character of the reference layout. -/
def referenceStep (layout : Layout α) (c : α) : Layout α :=
  if c = newline then layout.endRow
  else if width ≤ layout.current.length then layout.endRow.append c
  else layout.append c

/-- One character of `Console::PutString`. -/
def consoleStep (layout : Layout α) (c : α) : Layout α :=
  if c = newline ∨ width ≤ layout.current.length then layout.endRow else layout.append c

/-- The reference layout of a text. -/
def reference (text : List α) : Layout α := text.foldl (referenceStep width newline) empty

/-- The rows of the console after a text. -/
def console (text : List α) : Layout α := text.foldl (consoleStep width newline) empty

/-- Every line of the text has at most `width` characters. -/
def LinesFit (text : List α) : Prop :=
  ∀ line, line <:+: text → newline ∉ line → line.length ≤ width

end Step

/-! ## The last rows -/

theorem visible_succ (n : ℕ) (layout : Layout α) :
    layout.visible (n + 1) =
      layout.complete.drop (layout.complete.length - n) ++ [layout.current] := by
  unfold visible rows
  rw [List.length_append, List.length_singleton, Nat.add_sub_add_right,
    List.drop_append_of_le_length (Nat.sub_le _ _)]

theorem length_visible (n : ℕ) (layout : Layout α) :
    (layout.visible n).length = min n layout.rows.length := by
  unfold visible
  rw [List.length_drop]
  omega

/-- Ending the row adds an empty one while there is room, and then pushes out the first. -/
theorem visible_endRow (n : ℕ) (layout : Layout α) :
    layout.endRow.visible (n + 1) =
      (if (layout.visible (n + 1)).length ≤ n then layout.visible (n + 1)
        else (layout.visible (n + 1)).tail) ++ [[]] := by
  have hlen := length_visible (n + 1) layout
  have hrows : layout.endRow.rows = layout.rows ++ [[]] := rfl
  unfold visible at hlen ⊢
  rw [hrows, List.length_append, List.length_singleton]
  -- with room for one more row nothing is dropped on either side
  by_cases hfull : layout.rows.length ≤ n
  · rw [if_pos (by omega), show layout.rows.length + 1 - (n + 1) = 0 by omega,
      show layout.rows.length - (n + 1) = 0 by omega, List.drop_zero, List.drop_zero]
  · rw [if_neg (by omega), List.tail_drop,
      show layout.rows.length + 1 - (n + 1) = layout.rows.length - (n + 1) + 1 by omega,
      List.drop_append_of_le_length (by omega)]

theorem mem_rows_of_mem_visible {n : ℕ} {layout : Layout α} {row : List α}
    (h : row ∈ layout.visible n) : row ∈ layout.rows := List.mem_of_mem_drop h

/-! ## The two layouts -/

section Agreement

variable [DecidableEq α] {width : ℕ} {newline : α}

theorem reference_concat (text : List α) (c : α) :
    reference width newline (text ++ [c]) =
      referenceStep width newline (reference width newline text) c := by
  unfold reference
  rw [List.foldl_append, List.foldl_cons, List.foldl_nil]

theorem console_concat (text : List α) (c : α) :
    console width newline (text ++ [c]) =
      consoleStep width newline (console width newline text) c := by
  unfold console
  rw [List.foldl_append, List.foldl_cons, List.foldl_nil]

omit [DecidableEq α] in
theorem LinesFit.of_prefix {text text' : List α} (h : LinesFit width newline text')
    (hpre : text <+: text') : LinesFit width newline text :=
  fun line hline => h line (hline.trans hpre.isInfix)

/-- While the lines fit, the layouts agree, and the current row is the longest suffix of the
text without a newline. -/
theorem reference_eq_console {text : List α} (hfit : LinesFit width newline text) :
    reference width newline text = console width newline text ∧
      (console width newline text).current <:+ text ∧
      newline ∉ (console width newline text).current ∧
      ∀ line, line <:+ text → newline ∉ line →
        line.length ≤ (console width newline text).current.length := by
  induction text using List.reverseRecOn with
  | nil =>
    refine ⟨rfl, List.suffix_refl _, List.not_mem_nil, fun line hline _ => ?_⟩
    rw [List.suffix_nil.mp hline]
    exact Nat.zero_le _
  | append_singleton text c ih =>
    obtain ⟨heq, hsuffix, hfree, hmax⟩ := ih (hfit.of_prefix (List.prefix_append text [c]))
    rw [reference_concat, console_concat, heq]
    generalize console width newline text = layout at hsuffix hfree hmax
    by_cases hc : c = newline
    · -- a newline: no nonempty suffix without a newline ends here
      rw [referenceStep, consoleStep, if_pos hc, if_pos (Or.inl hc)]
      refine ⟨rfl, List.nil_suffix, List.not_mem_nil, fun line hline hline' => ?_⟩
      rcases List.suffix_concat_iff.mp hline with hnil | ⟨l, hl, _⟩
      · rw [hnil]
        exact Nat.zero_le _
      · exact absurd (by rw [hl, hc]; simp) hline'
    · -- the current row with `c` is a line of the text, so there is room for `c`
      have hline : layout.current ++ [c] <:+ text ++ [c] :=
        List.suffix_concat_iff.mpr (Or.inr ⟨_, rfl, hsuffix⟩)
      have hfree' : newline ∉ layout.current ++ [c] := by
        simp [hfree, Ne.symm hc]
      have hroom := hfit _ hline.isInfix hfree'
      rw [List.length_append, List.length_singleton] at hroom
      have hnot : ¬ width ≤ layout.current.length := by omega
      have hor : ¬ (c = newline ∨ width ≤ layout.current.length) := by
        rw [not_or]
        exact ⟨hc, hnot⟩
      rw [referenceStep, consoleStep, if_neg hc, if_neg hnot, if_neg hor]
      refine ⟨rfl, hline, hfree', fun line hline hline' => ?_⟩
      rcases List.suffix_concat_iff.mp hline with hnil | ⟨l, hl, hl'⟩
      · rw [hnil]
        exact Nat.zero_le _
      · rw [hl] at hline' ⊢
        have hle := hmax l hl' fun hmem => hline' (List.mem_append_left _ hmem)
        simp only [append, List.length_append, List.length_singleton]
        omega

/-- If the lengths of the current rows agree on every prefix, then the lines fit: the first
character without room would leave them at 0 and at 1. -/
theorem linesFit_of_length_current {text : List α}
    (h : ∀ pre, pre <+: text → (console width newline pre).current.length =
      (reference width newline pre).current.length) : LinesFit width newline text := by
  induction text using List.reverseRecOn with
  | nil =>
    intro line hline _
    rw [List.infix_nil.mp hline]
    exact Nat.zero_le _
  | append_singleton text c ih =>
    have hfit := ih fun pre hpre => h pre (hpre.trans (List.prefix_append text [c]))
    obtain ⟨heq, _, _, hmax⟩ := reference_eq_console hfit
    have hlast := h (text ++ [c]) (List.prefix_refl _)
    rw [reference_concat, console_concat, heq] at hlast
    intro line hline hfree
    -- a new line ends with `c`; if it were too long, the row would have been full before `c`
    rcases List.infix_concat_iff.mp hline with hsuffix | hinfix
    · rcases List.suffix_concat_iff.mp hsuffix with hnil | ⟨l, hl, hl'⟩
      · rw [hnil]
        exact Nat.zero_le _
      · rw [hl, List.mem_append, not_or, List.mem_singleton] at hfree
        have hle := hmax l hl' hfree.1
        have hc : ¬ c = newline := fun hc => hfree.2 hc.symm
        rw [hl, List.length_append, List.length_singleton]
        by_contra hlong
        have hfull : width ≤ (console width newline text).current.length := by omega
        rw [consoleStep, referenceStep, if_neg hc, if_pos hfull, if_pos (Or.inr hfull)] at hlast
        exact absurd hlast (by simp [endRow, append])
    · exact hfit line hinfix hfree

end Agreement

end Layout

end TommyOS
