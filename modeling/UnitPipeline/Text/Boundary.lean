namespace UnitPipeline.Text

-- Texts are lists of characters. Offsets count the bytes of the UTF-8 form, so
-- an offset is a boundary exactly when it is the size of some initial part.
def size : List Char → Nat
  | [] => 0
  | c :: rest => c.utf8Size + size rest

def floor : Nat → List Char → Nat
  | _, [] => 0
  | offset, c :: rest =>
    if c.utf8Size ≤ offset then c.utf8Size + floor (offset - c.utf8Size) rest else 0

def splitAt? : Nat → List Char → Option (List Char × List Char)
  | 0, text => some ([], text)
  | _ + 1, [] => none
  | offset + 1, c :: rest =>
    if c.utf8Size ≤ offset + 1 then
      (splitAt? (offset + 1 - c.utf8Size) rest).map fun parts => (c :: parts.1, parts.2)
    else none

def slice? (start stop : Nat) (text : List Char) : Option (List Char) :=
  if start ≤ stop then
    (splitAt? start text).bind fun parts => (splitAt? (stop - start) parts.2).map (·.1)
  else none

def startsAfter (offset : Nat) : List Char → List Nat
  | [] => []
  | c :: rest =>
    let next := offset + c.utf8Size
    if c = '\n' then next :: startsAfter next rest else startsAfter next rest

def lineStarts (text : List Char) : List Nat := 0 :: startsAfter 0 text

theorem utf8Size_pos (c : Char) : 0 < c.utf8Size := Char.utf8Size_pos c

theorem size_append (left right : List Char) : size (left ++ right) = size left + size right := by
  induction left with
  | nil => simp [size]
  | cons c rest ih => simp [size, ih, Nat.add_assoc]

theorem floor_le (offset : Nat) (text : List Char) : floor offset text ≤ offset := by
  induction text generalizing offset with
  | nil => simp [floor]
  | cons c rest ih =>
    simp only [floor]
    split
    · have := ih (offset - c.utf8Size)
      omega
    · omega

theorem floor_le_size (offset : Nat) (text : List Char) : floor offset text ≤ size text := by
  induction text generalizing offset with
  | nil => simp [floor, size]
  | cons c rest ih =>
    simp only [floor, size]
    split
    · have := ih (offset - c.utf8Size)
      omega
    · omega

theorem floor_boundary (offset : Nat) (text : List Char) :
    ∃ left right, text = left ++ right ∧ size left = floor offset text := by
  induction text generalizing offset with
  | nil => exact ⟨[], [], rfl, rfl⟩
  | cons c rest ih =>
    simp only [floor]
    split
    · obtain ⟨left, right, parts, width⟩ := ih (offset - c.utf8Size)
      refine ⟨c :: left, right, ?_, ?_⟩
      · rw [parts, List.cons_append]
      · simp only [size]
        omega
    · exact ⟨[], c :: rest, rfl, rfl⟩

theorem le_floor {offset : Nat} (left right : List Char) (fits : size left ≤ offset) :
    size left ≤ floor offset (left ++ right) := by
  induction left generalizing offset with
  | nil => exact Nat.zero_le _
  | cons c rest ih =>
    simp only [size] at fits
    have here : c.utf8Size ≤ offset := by omega
    have room : size rest ≤ offset - c.utf8Size := by omega
    have later := ih room
    simp only [List.cons_append, floor, size, here, if_true]
    omega

theorem splitAt?_exact {offset : Nat} {text left right : List Char} :
    splitAt? offset text = some (left, right) ↔ text = left ++ right ∧ size left = offset := by
  induction text generalizing offset left with
  | nil =>
    cases offset with
    | zero =>
      constructor
      · intro found
        simp [splitAt?] at found
        simp [found, size]
      · rintro ⟨parts, width⟩
        obtain ⟨rfl, rfl⟩ := List.append_eq_nil_iff.mp parts.symm
        rfl
    | succ n =>
      constructor
      · intro found
        simp [splitAt?] at found
      · rintro ⟨parts, width⟩
        obtain ⟨rfl, rfl⟩ := List.append_eq_nil_iff.mp parts.symm
        simp [size] at width
  | cons c rest ih =>
    cases offset with
    | zero =>
      constructor
      · intro found
        simp [splitAt?] at found
        simp [found, size]
      · rintro ⟨parts, width⟩
        cases left with
        | nil => simpa [splitAt?] using parts
        | cons d more =>
          have := utf8Size_pos d
          simp [size] at width
          omega
    | succ n =>
      constructor
      · intro found
        simp only [splitAt?] at found
        split at found
        · rename_i fits
          obtain ⟨⟨more, right'⟩, inner, equal⟩ := Option.map_eq_some_iff.mp found
          cases equal
          obtain ⟨rfl, width⟩ := ih.mp inner
          refine ⟨rfl, ?_⟩
          simp only [size]
          omega
        · cases found
      · rintro ⟨parts, width⟩
        cases left with
        | nil => simp [size] at width
        | cons d more =>
          simp only [List.cons_append, List.cons.injEq] at parts
          obtain ⟨rfl, rfl⟩ := parts
          simp only [size] at width
          have fits : c.utf8Size ≤ n + 1 := by omega
          have inner := ih.mpr ⟨rfl, show size more = n + 1 - c.utf8Size by omega⟩
          simp [splitAt?, fits, inner]

end UnitPipeline.Text
