namespace UnitPipeline.Text

def pieces : List Char → List (List Char)
  | [] => []
  | c :: rest =>
    if c = '\n' then [c] :: pieces rest
    else
      match pieces rest with
      | [] => [[c]]
      | piece :: more => (c :: piece) :: more

-- A line without its newline. A carriage return goes with the newline that
-- follows it; one without a newline stays.
def unterminated (piece : List Char) : List Char :=
  match piece.reverse with
  | '\n' :: '\r' :: body => body.reverse
  | '\n' :: body => body.reverse
  | _ => piece

def lines (text : List Char) : List (List Char) := (pieces text).map unterminated

def splitOnce (mark : Char) : List Char → Option (List Char × List Char)
  | [] => none
  | c :: rest =>
    if c = mark then some ([], rest)
    else (splitOnce mark rest).map fun parts => (c :: parts.1, parts.2)

theorem pieces_flatten (text : List Char) : (pieces text).flatten = text := by
  induction text with
  | nil => rfl
  | cons c rest ih =>
    simp only [pieces]
    split
    · simp [ih]
    · split
      · rename_i empty
        rw [empty] at ih
        simp at ih
        simp [← ih]
      · rename_i piece more cut
        rw [cut] at ih
        simp at ih
        simp [ih]

theorem splitOnce_exact {mark : Char} {text left right : List Char} :
    splitOnce mark text = some (left, right) ↔ text = left ++ mark :: right ∧ mark ∉ left := by
  induction text generalizing left with
  | nil => simp [splitOnce]
  | cons c rest ih =>
    simp only [splitOnce]
    split
    · rename_i here
      subst here
      constructor
      · intro found
        cases found
        simp
      · rintro ⟨parts, absent⟩
        cases left with
        | nil =>
          cases parts
          rfl
        | cons d more =>
          cases parts
          simp at absent
    · rename_i other
      constructor
      · intro found
        obtain ⟨⟨more, right'⟩, inner, equal⟩ := Option.map_eq_some_iff.mp found
        cases equal
        obtain ⟨rfl, absent⟩ := ih.mp inner
        exact ⟨rfl, by simp [absent, Ne.symm other]⟩
      · rintro ⟨parts, absent⟩
        cases left with
        | nil =>
          cases parts
          exact absurd rfl other
        | cons d more =>
          simp only [List.cons_append, List.cons.injEq] at parts
          obtain ⟨rfl, rfl⟩ := parts
          have later := ih.mpr ⟨rfl, fun h => absent (List.mem_cons_of_mem _ h)⟩
          simp [later]

end UnitPipeline.Text
