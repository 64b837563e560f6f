import Mathlib.Data.List.Basic
import Mathlib.Data.Nat.Notation

/-!
# Lines of a text

`str.splitlines` and `str.lstrip` of Python on a list of characters, and what stripping a
text does to its lines: the lines that start with a character of some set are the same,
unless the first of them was indented.
-/

namespace TextLines

/-- The characters at which `splitlines` ends a line. -/
def isLineBoundary (c : Char) : Bool :=
  c.toNat ∈ [0x0a, 0x0b, 0x0c, 0x0d, 0x1c, 0x1d, 0x1e, 0x85, 0x2028, 0x2029]

/-- `str.isspace` of one character. -/
def isSpace (c : Char) : Bool :=
  isLineBoundary c || 0x2000 ≤ c.toNat && c.toNat ≤ 0x200a ||
    c.toNat ∈ [0x09, 0x1f, 0x20, 0xa0, 0x1680, 0x202f, 0x205f, 0x3000]

/-- `str.splitlines`. A `'\r'` before a `'\n'` ends no line of its own. -/
def splitlines : List Char → List (List Char)
  | [] => []
  | c :: s =>
    if c = '\r' ∧ s.head? = some '\n' then splitlines s
    else if isLineBoundary c then [] :: splitlines s
    else
      match splitlines s with
      | [] => [[c]]
      | line :: lines => (c :: line) :: lines

/-- `str.lstrip`. -/
def lstrip (s : List Char) : List Char := s.dropWhile isSpace

/-! ## Texts made of lines -/

/-- A line without a boundary is read up to the boundary behind it. -/
theorem splitlines_append {line : List Char} (hline : ∀ c ∈ line, isLineBoundary c = false)
    (s : List Char) : splitlines (line ++ '\n' :: s) = line :: splitlines s := by
  induction line with
  | nil => rfl
  | cons c line ih =>
    have hc : isLineBoundary c = false := hline c List.mem_cons_self
    have hcr : c ≠ '\r' := fun h => absurd (h ▸ hc : isLineBoundary '\r' = false) (by decide)
    have hrest := ih fun c' hc' => hline c' (List.mem_cons_of_mem c hc')
    rw [List.cons_append, splitlines, if_neg fun h => hcr h.1, hc, hrest]
    rfl

/-- The lines of a text are those it was put together from. -/
theorem splitlines_flatMap {lines : List (List Char)}
    (hlines : ∀ line ∈ lines, ∀ c ∈ line, isLineBoundary c = false) :
    splitlines (lines.flatMap (· ++ ['\n'])) = lines := by
  induction lines with
  | nil => rfl
  | cons line lines ih =>
    rw [List.flatMap_cons, List.append_assoc, List.singleton_append,
      splitlines_append (hlines line List.mem_cons_self),
      ih fun l hl => hlines l (List.mem_cons_of_mem line hl)]

/-! ## Stripped texts -/

/-- A line starts with a character of the set `q`. -/
def startsWith (q : Char → Bool) : List Char → Bool
  | [] => false
  | c :: _ => q c

/-- The first character that is no white space is one of `q`, and in its line there is white
space before it. -/
def indented (q : Char → Bool) : List Char → Bool
  | a :: b :: s => isSpace a && (!isLineBoundary a && q b || indented q (b :: s))
  | _ => false

variable {q : Char → Bool}

/-- The first line starts with the first character. -/
theorem startsWith_splitlines {b : Char} {s line : List Char} {lines : List (List Char)}
    (hb : q b = false) (h : splitlines (b :: s) = line :: lines) :
    startsWith q line = false := by
  rw [splitlines] at h
  by_cases hcrlf : b = '\r' ∧ s.head? = some '\n'
  · -- the line ends at the `'\n'` that follows
    rw [if_pos hcrlf] at h
    cases s with
    | nil => exact absurd hcrlf.2 (by simp)
    | cons c s =>
      have hc : c = '\n' := by simpa using hcrlf.2
      rw [hc, splitlines, if_neg (by simp), if_pos (by decide)] at h
      rw [← (List.cons.inj h).1]
      rfl
  · rw [if_neg hcrlf] at h
    -- at any other boundary the line is empty, and elsewhere it starts with this character
    by_cases hboundary : isLineBoundary b
    · rw [if_pos hboundary] at h
      rw [← (List.cons.inj h).1]
      rfl
    · rw [if_neg hboundary] at h
      cases hs : splitlines s with
      | nil =>
        rw [hs] at h
        rw [← (List.cons.inj h).1]
        exact hb
      | cons l ls =>
        rw [hs] at h
        rw [← (List.cons.inj h).1]
        exact hb

/-- Leading white space that indents no such line adds no such line. -/
theorem filter_splitlines_cons {c : Char} {s : List Char} (hc : q c = false)
    (hnext : isLineBoundary c = false → ∀ b ∈ s.head?, q b = false) :
    (splitlines (c :: s)).filter (startsWith q) = (splitlines s).filter (startsWith q) := by
  rw [splitlines]
  by_cases hcrlf : c = '\r' ∧ s.head? = some '\n'
  · rw [if_pos hcrlf]
  · rw [if_neg hcrlf]
    by_cases hboundary : isLineBoundary c
    · rw [if_pos hboundary, List.filter_cons_of_neg (by simp [startsWith])]
    · rw [if_neg hboundary]
      cases s with
      | nil => simp [splitlines, startsWith, hc]
      | cons b s =>
        have hb : q b = false := hnext (by simpa using hboundary) b (by simp)
        cases hs : splitlines (b :: s) with
        | nil => simp [startsWith, hc]
        | cons l ls =>
          have hl := startsWith_splitlines hb hs
          show List.filter _ ((c :: l) :: ls) = _
          rw [List.filter_cons_of_neg (by simp [startsWith, hc]),
            List.filter_cons_of_neg (by simp [hl])]

theorem filter_splitlines_lstrip (hq : ∀ c, isSpace c = true → q c = false) {s : List Char}
    (hs : indented q s = false) :
    (splitlines (lstrip s)).filter (startsWith q) = (splitlines s).filter (startsWith q) := by
  induction s with
  | nil => rfl
  | cons c s ih =>
    by_cases hspace : isSpace c
    · have hstrip : lstrip (c :: s) = lstrip s := List.dropWhile_cons_of_pos hspace
      have hrest : indented q s = false ∧
          (isLineBoundary c = false → ∀ b ∈ s.head?, q b = false) := by
        cases s with
        | nil => exact ⟨rfl, fun _ b hb => absurd hb (by simp)⟩
        | cons b s =>
          rw [indented, hspace] at hs
          simp only [Bool.true_and, Bool.or_eq_false_iff, Bool.and_eq_false_iff] at hs
          refine ⟨hs.2, fun hboundary b' hb' => ?_⟩
          have heq : b = b' := by simpa using hb'
          rw [← heq]
          rcases hs.1 with h | h
          · rw [hboundary] at h
            exact absurd h (by decide)
          · exact h
      rw [hstrip, ih hrest.1, filter_splitlines_cons (hq c hspace) hrest.2]
    · have hstrip : lstrip (c :: s) = c :: s := List.dropWhile_cons_of_neg (by simpa using hspace)
      rw [hstrip]

end TextLines
