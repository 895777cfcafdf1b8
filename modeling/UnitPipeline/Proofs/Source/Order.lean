import UnitPipeline.Proofs.Source.Position
import UnitPipeline.Proofs.Text.Segments

namespace UnitPipeline

namespace Text

theorem size_eq_zero {text : List Char} : size text = 0 ↔ text = [] := by
  cases text with
  | nil => exact iff_of_true rfl rfl
  | cons c rest =>
    have wide := utf8Size_pos c
    rw [size]
    exact iff_of_false (by omega) (List.cons_ne_nil c rest)

theorem initial_of_size {a b text : List Char} (first : a <+: text) (second : b <+: text)
    (smaller : size a ≤ size b) : a <+: b := by
  rcases List.prefix_or_prefix_of_prefix first second with inside | ⟨more, parts⟩
  · exact inside
  · have none : size more = 0 := by
      rw [← parts, size_append] at smaller
      omega
    have same : b = a := by rw [← parts, size_eq_zero.mp none, List.append_nil]
    exact same ▸ List.prefix_rfl

theorem floor_le_floor (text : List Char) {a b : Nat} (ordered : a ≤ b) :
    floor a text ≤ floor b text := by
  obtain ⟨left, right, parts, width⟩ := floor_boundary a text
  have below := floor_le a text
  have fits : size left ≤ b := by omega
  have reaches := le_floor left right fits
  rwa [← parts, width] at reaches

theorem floor_of_boundary {offset : Nat} {text : List Char}
    (boundary : isBoundary (bytes text) offset = true) : floor offset text = offset := by
  obtain ⟨left, right, rfl, width⟩ := (isBoundary_exact offset text).mp boundary
  have reaches := le_floor left right (Nat.le_of_eq width)
  have below := floor_le offset (left ++ right)
  omega

theorem lastLine_append (left : List Char) {more : List Char} (whole : '\n' ∉ more) :
    lastLine (left ++ more) = lastLine left ++ more := by
  have all : ∀ c ∈ more.reverse, decide (c ≠ '\n') = true := by
    intro c inside
    refine decide_eq_true fun newline => whole ?_
    exact newline ▸ List.mem_reverse.mp inside
  rw [lastLine, List.reverse_append, List.takeWhile_append_of_pos all, List.reverse_append,
    List.reverse_reverse, lastLine]

end Text

def Position.Precedes (p q : Position) : Prop :=
  p.line < q.line ∨ p.line = q.line ∧ p.column < q.column

namespace Position
variable {p q : Position} {before more : List Char}

theorem precedes_iff : p.Precedes q ↔ p.line.toNat < q.line.toNat ∨
    p.line.toNat = q.line.toNat ∧ p.column.toNat < q.column.toNat := by
  rw [Precedes, UInt32.lt_iff_toNat_lt, UInt32.lt_iff_toNat_lt, UInt32.toNat_inj]

theorem Precedes.asymm (first : p.Precedes q) : ¬q.Precedes p := by
  rw [precedes_iff] at first ⊢
  omega

theorem Precedes.apart (first : p.Precedes q) : ¬(p.line = q.line ∧ p.column = q.column) := by
  rw [precedes_iff] at first
  rw [← UInt32.toNat_inj, ← UInt32.toNat_inj]
  omega

theorem Behind.unique (first : p.Behind before) (second : q.Behind before) : p = q := by
  have offsets := UInt64.toNat_inj.mp (first.offset.trans second.offset.symm)
  have lines := UInt32.toNat_inj.mp (first.line.trans second.line.symm)
  have columns := UInt32.toNat_inj.mp (first.column.trans second.column.symm)
  cases p
  cases q
  simp only at offsets lines columns
  rw [offsets, lines, columns]

theorem Behind.precedes (first : p.Behind before) (second : q.Behind (before ++ more))
    (filled : more ≠ []) : p.Precedes q := by
  rw [precedes_iff, first.line, first.column, second.line, second.column, List.count_append]
  by_cases newline : '\n' ∈ more
  · have some := List.count_pos_iff.mpr newline
    omega
  · have wide := List.length_pos_iff.mpr filled
    rw [List.count_eq_zero.mpr newline, Text.lastLine_append before newline, List.length_append]
    omega

end Position

namespace SourceFile
variable {source : SourceFile}

theorem position_behind (present : source.isPresent = true)
    (small : source.length < UInt32.size - 1) (offset : UInt64) :
    ∃ before, source.position? offset = some (source.position offset) ∧
      before <+: source.chars ∧ Text.size before = Text.floor offset.toNat source.chars ∧
        (source.position offset).Behind before := by
  obtain ⟨place, before, after, found, parts, width, behind⟩ :=
    position?_behind present small offset
  have same : source.position offset = place := by rw [position, found, Option.getD_some]
  rw [same]
  exact ⟨before, found, ⟨after, parts.symm⟩, width, behind⟩

-- Whether two offsets have one place or two is told by the boundaries that they resolve to.
theorem positions_ordered (present : source.isPresent = true)
    (small : source.length < UInt32.size - 1) {a b : UInt64}
    (ordered : Text.floor a.toNat source.chars ≤ Text.floor b.toNat source.chars) :
    source.position a = source.position b ∨
      Text.floor a.toNat source.chars < Text.floor b.toNat source.chars ∧
        (source.position a).Precedes (source.position b) := by
  obtain ⟨first, _, initial, width, here⟩ := position_behind present small a
  obtain ⟨second, _, longer, wide, there⟩ := position_behind present small b
  obtain ⟨more, rfl⟩ := Text.initial_of_size initial longer (by omega)
  cases more with
  | nil =>
    rw [List.append_nil] at there
    exact Or.inl (here.unique there)
  | cons c rest =>
    have filled := Text.utf8Size_pos c
    rw [Text.size_append, Text.size] at wide
    exact Or.inr ⟨by omega, here.precedes there (List.cons_ne_nil c rest)⟩

theorem position_of_floor (present : source.isPresent = true)
    (small : source.length < UInt32.size - 1) {a b : UInt64}
    (same : Text.floor a.toNat source.chars = Text.floor b.toNat source.chars) :
    source.position a = source.position b := by
  rcases positions_ordered present small (Nat.le_of_eq same) with one | other
  · exact one
  · exact absurd same (Nat.ne_of_lt other.1)

theorem position_offset (present : source.isPresent = true)
    (small : source.length < UInt32.size - 1) (offset : UInt64) :
    (source.position offset).offset.toNat = Text.floor offset.toNat source.chars := by
  obtain ⟨_, _, _, width, behind⟩ := position_behind present small offset
  exact behind.offset.trans width

def Bounds (source : SourceFile) (offset : UInt64) : Prop :=
  Text.isBoundary (Text.bytes source.chars) offset.toNat = true

theorem Bounds.forward {a b : UInt64} (first : source.Bounds a) (second : source.Bounds b)
    (present : source.isPresent = true) (small : source.length < UInt32.size - 1)
    (less : a.toNat < b.toNat) : (source.position a).Precedes (source.position b) := by
  have lower := Text.floor_of_boundary first
  have upper := Text.floor_of_boundary second
  rcases positions_ordered present small (a := a) (b := b) (by omega) with one | other
  · have same := congrArg (fun p : Position => p.offset.toNat) one
    simp only [position_offset present small, lower, upper] at same
    omega
  · exact other.2

theorem Bounds.cases {a b : UInt64} (first : source.Bounds a) (second : source.Bounds b)
    (present : source.isPresent = true) (small : source.length < UInt32.size - 1) :
    a = b ∨ a < b ∧ (source.position a).Precedes (source.position b) ∨
      b < a ∧ (source.position b).Precedes (source.position a) := by
  rw [UInt64.lt_iff_toNat_lt, UInt64.lt_iff_toNat_lt]
  rcases Nat.lt_trichotomy a.toNat b.toNat with less | same | more
  · exact Or.inr (Or.inl ⟨less, first.forward second present small less⟩)
  · exact Or.inl (UInt64.toNat_inj.mp same)
  · exact Or.inr (Or.inr ⟨more, second.forward first present small more⟩)

end SourceFile

-- Places stand in the order of the text, and lead back into it: where a character begins
-- or the text ends, no two offsets share line and column, and these alone tell the offset.
theorem positions_embed {source : SourceFile} (present : source.isPresent = true)
    (small : source.length < UInt32.size - 1) :
    let boundary (offset : UInt64) := Text.isBoundary (Text.bytes source.chars) offset.toNat = true
    let place := source.position
    (∀ offset, source.position? offset = some (place offset)) ∧
      (∀ a b, boundary a → boundary b → (a < b ↔ (place a).Precedes (place b))) ∧
      (∀ a b, boundary a → boundary b → (place a).line = (place b).line →
        (place a).column = (place b).column → a = b) ∧
      (∀ a b, a ≤ b → (place a).offset ≤ (place b).offset ∧
        (place a = place b ∨ (place a).Precedes (place b))) ∧
      (∀ offset, place (place offset).offset = place offset) ∧
      (∀ offset, boundary offset → (place offset).offset = offset) ∧
      ∀ offset, Text.offsetAt? source.chars (place offset).line.toNat (place offset).column.toNat =
        some (place offset).offset.toNat := by
  intro boundary place
  refine ⟨?_, ?_, ?_, ?_, ?_, ?_, ?_⟩
  · intro offset
    obtain ⟨_, found, _⟩ := SourceFile.position_behind present small offset
    exact found
  · intro a b first second
    rcases SourceFile.Bounds.cases first second present small with same | less | more
    · rw [same]
      exact iff_of_false (UInt64.lt_irrefl b) fun precedes => precedes.apart ⟨rfl, rfl⟩
    · exact iff_of_true less.1 less.2
    · exact iff_of_false (UInt64.lt_asymm more.1) more.2.asymm
  · intro a b first second lines columns
    rcases SourceFile.Bounds.cases first second present small with same | less | more
    · exact same
    · exact absurd ⟨lines, columns⟩ less.2.apart
    · exact absurd ⟨lines.symm, columns.symm⟩ more.2.apart
  · intro a b ordered
    have rising := Text.floor_le_floor source.chars (UInt64.le_iff_toNat_le.mp ordered)
    refine ⟨?_, ?_⟩
    · rw [UInt64.le_iff_toNat_le, SourceFile.position_offset present small,
        SourceFile.position_offset present small]
      exact rising
    · rcases SourceFile.positions_ordered present small rising with one | other
      · exact Or.inl one
      · exact Or.inr other.2
  · intro offset
    refine SourceFile.position_of_floor present small ?_
    rw [SourceFile.position_offset present small]
    exact Text.floor_of_boundary ((Text.isBoundary_exact _ _).mpr (Text.floor_boundary _ _))
  · intro offset lies
    rw [← UInt64.toNat_inj, SourceFile.position_offset present small]
    exact Text.floor_of_boundary lies
  · intro offset
    obtain ⟨before, _, ⟨after, parts⟩, _, behind⟩ :=
      SourceFile.position_behind present small offset
    rw [behind.line, behind.column, behind.offset, ← parts]
    exact Text.offsetAt?_end before after

theorem accented_embedded :
    (accented.position 2).Precedes (accented.position 3) ∧
      accented.position 5 = accented.position 4 ∧
      Text.offsetAt? accented.chars 2 2 = some 4 ∧ Text.offsetAt? accented.chars 4 2 = some 9 := by
  have small : accented.length < UInt32.size - 1 := by decide +kernel
  obtain ⟨_, order, _, _, again, _, back⟩ := positions_embed rfl small
  have place : accented.position 5 = ⟨4, 2, 2⟩ := by decide +kernel
  refine ⟨?_, ?_, ?_, ?_⟩
  · exact (order 2 3 (by decide +kernel) (by decide +kernel)).mp (by decide)
  · have same := again 5
    rw [place] at same ⊢
    exact same.symm
  · have found := back 5
    rwa [place] at found
  · have found := back 0xFFFFFFFFFFFFFFFF
    have last : accented.position 0xFFFFFFFFFFFFFFFF = ⟨9, 4, 2⟩ := by decide +kernel
    rwa [last] at found

end UnitPipeline
