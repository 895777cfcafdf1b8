import UnitPipeline.Proofs.Text.Lookup

namespace UnitPipeline.Text

def terminatedSize : List (List Char) → Nat
  | [] => 0
  | segment :: rest => size segment + 1 + terminatedSize rest

theorem terminatedSize_append (a b : List (List Char)) :
    terminatedSize (a ++ b) = terminatedSize a + terminatedSize b := by
  induction a with
  | nil => exact (Nat.zero_add _).symm
  | cons segment rest ih =>
    rw [List.cons_append, terminatedSize, terminatedSize, ih]
    omega

-- The offset of a column in a line, both counted from one: what stands between newlines
-- is cut into lines, and in one of these the characters before the column are passed.
def offsetAt? (text : List Char) : Nat → Nat → Option Nat
  | line + 1, column + 1 =>
    let segments := text.splitOn '\n'
    segments[line]?.bind fun segment =>
      if column ≤ segment.length then
        some (terminatedSize (segments.take line) + size (segment.take column))
      else none
  | _, _ => none

theorem splitOn_filled (text : List Char) : ∃ first rest, text.splitOn '\n' = first :: rest :=
  List.exists_cons_of_ne_nil (List.splitOn_ne_nil '\n' text)

theorem splitOn_other {c : Char} (other : c ≠ '\n') {text : List Char}
    (cut : text.splitOn '\n' = first :: rest) :
    (c :: text).splitOn '\n' = (c :: first) :: rest := by
  rw [List.splitOn_cons_eq_if_modifyHead, if_neg (by simpa using other), cut, List.modifyHead_cons]

theorem splitOn_newline (text : List Char) :
    ('\n' :: text).splitOn '\n' = [] :: text.splitOn '\n' := by
  rw [List.splitOn_cons_eq_if_modifyHead, if_pos (by rfl)]

theorem splitOn_whole {tail : List Char} (whole : '\n' ∉ tail) {right : List Char}
    (cut : right.splitOn '\n' = first :: rest) :
    (tail ++ right).splitOn '\n' = (tail ++ first) :: rest := by
  induction tail with
  | nil => exact cut
  | cons c more ih =>
    obtain ⟨other, absent⟩ := not_or.mp (mt List.mem_cons.mpr whole)
    exact splitOn_other (Ne.symm other) (ih absent)

-- What holds of a text of one line, and goes from a text to one with a line before it,
-- holds of every text.
theorem lines_induction {motive : List Char → Prop} (last : ∀ text, '\n' ∉ text → motive text)
    (line : ∀ body rest, '\n' ∉ body → motive rest → motive (body ++ '\n' :: rest))
    (text : List Char) : motive text := by
  cases cut : splitOnce '\n' text with
  | none => exact last text (splitOnce_none.mp cut)
  | some parts =>
    obtain ⟨parts, whole⟩ := splitOnce_exact.mp cut
    rw [parts]
    exact line _ _ whole (lines_induction last line _)
termination_by text.length
decreasing_by simp [parts]; omega

theorem splitOn_alone {text : List Char} (whole : '\n' ∉ text) : text.splitOn '\n' = [text] := by
  have nothing : ([] : List Char).splitOn '\n' = [[]] := rfl
  have alone := splitOn_whole whole nothing
  rwa [List.append_nil] at alone

theorem splitOn_line {body : List Char} (whole : '\n' ∉ body) (rest : List Char) :
    (body ++ '\n' :: rest).splitOn '\n' = body :: rest.splitOn '\n' := by
  have first := splitOn_whole whole (splitOn_newline rest)
  rwa [List.append_nil] at first

theorem splitOn_length (text : List Char) :
    (text.splitOn '\n').length = text.count '\n' + 1 := by
  induction text using lines_induction with
  | last text whole =>
    rw [splitOn_alone whole, List.count_eq_zero.mpr whole]
    rfl
  | line body rest whole ih =>
    rw [splitOn_line whole, List.length_cons, ih, List.count_append, List.count_cons_self,
      List.count_eq_zero.mpr whole, Nat.zero_add]

theorem splitOn_size (text : List Char) : terminatedSize (text.splitOn '\n') = size text + 1 := by
  induction text using lines_induction with
  | last text whole =>
    rw [splitOn_alone whole]
    rfl
  | line body rest whole ih =>
    have single : '\n'.utf8Size = 1 := rfl
    rw [splitOn_line whole, terminatedSize, ih, size_append, size, single]
    omega

theorem splitOn_ends {head : List Char} (ends : EndsLine head) : ∃ earlier,
    (∀ rest, (head ++ rest).splitOn '\n' = earlier ++ rest.splitOn '\n') ∧
      earlier.length = head.count '\n' ∧ terminatedSize earlier = size head := by
  rcases ends with rfl | ⟨body, rfl⟩
  · exact ⟨[], fun _ => rfl, rfl, rfl⟩
  · refine ⟨body.splitOn '\n', fun rest => ?_, ?_, ?_⟩
    · rw [List.append_assoc]
      exact List.splitOn_append_cons_self body rest
    · rw [splitOn_length, List.count_append]
      rfl
    · rw [splitOn_size, size_append]
      rfl

theorem offsetAt?_exact {head tail : List Char} (ends : EndsLine head) (whole : '\n' ∉ tail)
    (right : List Char) : offsetAt? (head ++ (tail ++ right)) (head.count '\n' + 1)
      (tail.length + 1) = some (size (head ++ tail)) := by
  obtain ⟨earlier, cut, lines, bytes⟩ := splitOn_ends ends
  obtain ⟨first, rest, goesOn⟩ := splitOn_filled right
  have segments : (head ++ (tail ++ right)).splitOn '\n' = earlier ++ (tail ++ first) :: rest := by
    rw [cut, splitOn_whole whole goesOn]
  have here : (earlier ++ (tail ++ first) :: rest)[earlier.length]? = some (tail ++ first) := by
    simp
  have within : tail.length ≤ (tail ++ first).length := by simp
  simp only [offsetAt?, segments, ← lines, here, Option.bind_some, if_pos within,
    List.take_left, bytes, size_append]

theorem offsetAt?_end (left right : List Char) :
    offsetAt? (left ++ right) (left.count '\n' + 1) ((lastLine left).length + 1) =
      some (size left) := by
  obtain ⟨head, parts, ends, counted⟩ := lastLine_parts left
  have found := offsetAt?_exact ends (lastLine_whole left) right
  rwa [← List.append_assoc, ← parts, ← counted] at found

end UnitPipeline.Text
