import UnitPipeline.Proofs.Text.Segments

namespace UnitPipeline.Text

-- A line without the blanks at its end: its number, counted from one, and the bytes
-- before it.
structure FilledLine where
  number : Nat
  start : Nat
  text : List Char
  deriving DecidableEq, Repr

def FilledLine.stop (line : FilledLine) : Nat := line.start + size line.text

def lineAmong (segments : List (List Char)) (e : List Char × Nat) : FilledLine :=
  ⟨e.2 + 1, terminatedSize (segments.take e.2), trimEnd e.1⟩

def filledLines (text : List Char) : List FilledLine :=
  let segments := text.splitOn '\n'
  (segments.zipIdx.map (lineAmong segments)).filter fun line => line.text ≠ []

theorem lineAmong_here {segments earlier rest : List (List Char)}
    (among : segments = earlier ++ rest) (first : List Char) :
    lineAmong segments (first, earlier.length) =
      ⟨earlier.length + 1, terminatedSize earlier, trimEnd first⟩ := by
  simp only [lineAmong, among, List.take_left]

theorem lineAmong_before {segments : List (List Char)} {i j : Nat} {a b : List Char}
    (first : segments[i]? = some a) (before : i < j) :
    (lineAmong segments (a, i)).stop < (lineAmong segments (b, j)).start := by
  have narrow := size_trimEnd a
  have past : segments.take (i + 1) = segments.take i ++ [a] := by
    rw [List.take_add_one, first, Option.toList_some]
  obtain ⟨more, parts⟩ := List.take_prefix_take_left (l := segments) (Nat.succ_le_of_lt before)
  have upTo : terminatedSize (segments.take j) =
      terminatedSize (segments.take i) + (size a + 1) + terminatedSize more := by
    rw [← parts, past, terminatedSize_append, terminatedSize_append]
    rfl
  simp only [lineAmong, FilledLine.stop, upTo]
  omega

theorem filledLines_apart (text : List Char) :
    (filledLines text).Pairwise fun a b => a.stop < b.start := by
  refine List.Pairwise.filter _ (List.pairwise_map.mpr (List.pairwise_iff_getElem.mpr ?_))
  intro i j left right before
  simp only [List.getElem_zipIdx, Nat.zero_add]
  exact lineAmong_before (List.getElem?_eq_getElem _) before

theorem trimEnd_newline (body : List Char) : trimEnd (body ++ ['\n']) = trimEnd body :=
  trimEnd_blanks (List.forall_mem_singleton.mpr isBlank_newline) body

theorem filled_pieces (text : List Char) :
    ((text.splitOn '\n').map trimEnd).filter (· ≠ []) =
      ((pieces text).map trimEnd).filter (· ≠ []) := by
  induction text using lines_induction with
  | last text whole =>
    rw [splitOn_alone whole]
    by_cases empty : text = []
    · rw [empty]
      rfl
    · rw [pieces_whole whole empty]
  | line body rest whole ih =>
    rw [splitOn_line whole, pieces_break whole, List.map_cons, List.map_cons, trimEnd_newline,
      List.filter_cons, List.filter_cons, ih]

theorem filledLines_texts (text : List Char) :
    (filledLines text).map (·.text) = ((pieces text).map trimEnd).filter (· ≠ []) := by
  have alone : (text.splitOn '\n').map trimEnd =
      ((text.splitOn '\n').zipIdx.map (·.1)).map trimEnd := by rw [List.zipIdx_map_fst]
  rw [← filled_pieces, alone, filledLines, List.map_map, List.filter_map, List.filter_map,
    List.map_map]
  rfl

end UnitPipeline.Text
