import Mathlib.Data.List.TakeWhile
import UnitPipeline.Text.Blank
import UnitPipeline.Text.Boundary
import UnitPipeline.Text.Line

namespace UnitPipeline.Text

theorem splitOnce_none {mark : Char} {text : List Char} :
    splitOnce mark text = none ↔ mark ∉ text := by
  induction text with
  | nil => simp [splitOnce]
  | cons c rest ih =>
    by_cases here : c = mark
    · simp [splitOnce, here]
    · simp [splitOnce, here, ih, Ne.symm here]

theorem pieces_break {body : List Char} (whole : '\n' ∉ body) (rest : List Char) :
    pieces (body ++ '\n' :: rest) = (body ++ ['\n']) :: pieces rest := by
  induction body with
  | nil => rfl
  | cons c more ih =>
    obtain ⟨other, absent⟩ := not_or.mp (mt List.mem_cons.mpr whole)
    simp [pieces, Ne.symm other, ih absent]

theorem pieces_whole {text : List Char} (whole : '\n' ∉ text) (filled : text ≠ []) :
    pieces text = [text] := by
  induction text with
  | nil => exact absurd rfl filled
  | cons c more ih =>
    obtain ⟨other, absent⟩ := not_or.mp (mt List.mem_cons.mpr whole)
    cases more with
    | nil => simp [pieces, Ne.symm other]
    | cons d rest =>
      have later := ih absent (List.cons_ne_nil d rest)
      rw [pieces, if_neg (Ne.symm other), later]

-- A line is followed by the lines of the rest, and ends with the only newline in it
-- unless there is no rest.
theorem pieces_cons {text piece : List Char} {more : List (List Char)}
    (cut : pieces text = piece :: more) : ∃ rest, text = piece ++ rest ∧ pieces rest = more ∧
      (rest = [] ∨ ∃ body, piece = body ++ ['\n'] ∧ '\n' ∉ body) := by
  cases broken : splitOnce '\n' text with
  | some parts =>
    obtain ⟨body, rest⟩ := parts
    obtain ⟨rfl, absent⟩ := splitOnce_exact.mp broken
    obtain ⟨rfl, rfl⟩ := List.cons.inj ((pieces_break absent rest).symm.trans cut)
    exact ⟨rest, by simp, rfl, Or.inr ⟨body, rfl, absent⟩⟩
  | none =>
    have filled : text ≠ [] := by
      rintro rfl
      cases cut
    have alone := pieces_whole (splitOnce_none.mp broken) filled
    obtain ⟨rfl, rfl⟩ := List.cons.inj (alone.symm.trans cut)
    exact ⟨[], by simp, rfl, Or.inl rfl⟩

theorem trimEnd_eq_nil {text : List Char} :
    trimEnd text = [] ↔ ∀ c ∈ text, isBlank c = true := by
  induction text with
  | nil => simp [trimEnd]
  | cons c rest ih =>
    simp only [trimEnd, List.forall_mem_cons, ← ih]
    cases trimEnd rest with
    | nil => by_cases blank : isBlank c = true <;> simp [blank]
    | cons d more => simp

theorem trimEnd_blanks {blanks : List Char} (blank : ∀ c ∈ blanks, isBlank c = true)
    (text : List Char) : trimEnd (text ++ blanks) = trimEnd text := by
  induction text with
  | nil => exact trimEnd_eq_nil.mpr blank
  | cons c rest ih => simp only [List.cons_append, trimEnd, ih]

theorem trim_blank {text : List Char} (empty : trimEnd text = []) : trim text = [] := by
  rw [trim, trimStart, List.dropWhile_eq_nil_iff.mpr (trimEnd_eq_nil.mp empty)]
  rfl

theorem trim_solid {text : List Char} (kept : trimEnd text = c :: rest)
    (solid : isBlank c = false) : trim text = trimEnd text := by
  obtain ⟨blanks, parts, _⟩ := trimEnd_append text
  have same : trimStart text = text := by
    rw [parts, kept]
    simp [trimStart, solid]
  rw [trim, same]

theorem unterminated_append (piece : List Char) :
    ∃ blanks, piece = unterminated piece ++ blanks ∧ ∀ c ∈ blanks, isBlank c = true := by
  unfold unterminated
  split
  · rename_i body ends
    refine ⟨['\r', '\n'], ?_, List.all_eq_true.mp rfl⟩
    rw [← List.reverse_reverse piece, ends]
    simp
  · rename_i body _ ends
    refine ⟨['\n'], ?_, List.all_eq_true.mp rfl⟩
    rw [← List.reverse_reverse piece, ends]
    simp
  · exact ⟨[], by simp, by simp⟩

theorem trimEnd_unterminated (piece : List Char) : trimEnd (unterminated piece) = trimEnd piece := by
  obtain ⟨blanks, parts, blank⟩ := unterminated_append piece
  rw [← trimEnd_blanks blank, ← parts]

theorem size_trimEnd (text : List Char) : size (trimEnd text) ≤ size text := by
  obtain ⟨blanks, parts, _⟩ := trimEnd_append text
  have whole := congrArg size parts
  rw [size_append] at whole
  omega

theorem length_le_size (text : List Char) : text.length ≤ size text := by
  induction text with
  | nil => exact Nat.le_refl 0
  | cons c rest ih =>
    have wide := utf8Size_pos c
    rw [List.length_cons, size]
    omega

theorem startsAfter_append (offset : Nat) (left right : List Char) :
    startsAfter offset (left ++ right) =
      startsAfter offset left ++ startsAfter (offset + size left) right := by
  induction left generalizing offset with
  | nil => simp [startsAfter, size]
  | cons c rest ih =>
    simp only [List.cons_append, startsAfter, size, ih, Nat.add_assoc]
    split <;> rfl

theorem startsAfter_length (offset : Nat) (text : List Char) :
    (startsAfter offset text).length = text.count '\n' := by
  induction text generalizing offset with
  | nil => rfl
  | cons c rest ih => by_cases here : c = '\n' <;> simp [startsAfter, here, ih]

theorem startsAfter_bounds {offset start : Nat} {text : List Char}
    (inside : start ∈ startsAfter offset text) : offset < start ∧ start ≤ offset + size text := by
  induction text generalizing offset with
  | nil => cases inside
  | cons c rest ih =>
    have wide := utf8Size_pos c
    have later : start ∈ startsAfter (offset + c.utf8Size) rest →
        offset < start ∧ start ≤ offset + (c.utf8Size + size rest) := by
      intro here
      have := ih here
      omega
    simp only [startsAfter] at inside
    simp only [size]
    split at inside
    · rcases List.mem_cons.mp inside with rfl | others
      · omega
      · exact later others
    · exact later inside

-- A text behind which a line starts.
def EndsLine (text : List Char) : Prop := text = [] ∨ ∃ body, text = body ++ ['\n']

theorem lineStarts_ends {text : List Char} (ends : EndsLine text) : ∃ earlier,
    lineStarts text = earlier ++ [size text] ∧ earlier.length = text.count '\n' := by
  rcases ends with rfl | ⟨body, rfl⟩
  · exact ⟨[], rfl, rfl⟩
  · refine ⟨lineStarts body, ?_, ?_⟩
    · rw [lineStarts, startsAfter_append, size_append, Nat.zero_add]
      rfl
    · simp [lineStarts, startsAfter_length]

theorem lineStarts_length (text : List Char) :
    (lineStarts text).length = text.count '\n' + 1 := by
  rw [lineStarts, List.length_cons, startsAfter_length]

end UnitPipeline.Text
