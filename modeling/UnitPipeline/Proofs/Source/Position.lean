import UnitPipeline.Proofs.Text.Lookup
import UnitPipeline.Source.File

namespace UnitPipeline

theorem SourceFile.position?_found {source : SourceFile} {offset : UInt64}
    (present : source.isPresent = true)
    (found : Text.lookUp offset.toNat source.chars = some (boundary, line, column)) :
    source.position? offset = some ⟨.ofNat boundary, .ofNat line, .ofNat column⟩ := by
  cases source with
  | absent => cases present
  | persistent path content => exact congrArg (Option.map _) found
  | inMemory path content => exact congrArg (Option.map _) found

theorem SourceFile.lineCount_exact {source : SourceFile} (present : source.isPresent = true) :
    source.lineCount = 1 + (Text.bytes source.chars).count 0x0A := by
  rw [Text.count_newline, Nat.add_comm, ← Text.lineStarts_length]
  cases source with
  | absent => cases present
  | _ => rfl

-- The place of an offset. The text before it is the longest part that ends with a
-- character and is no longer than the offset. The line counts the newlines of that part
-- as bytes, and the column counts as characters what stands behind the last of them.
structure Position.Locates (place : Position) (source : SourceFile) (offset : UInt64) : Prop where
  boundary : ∃ before after, source.chars = before ++ after ∧
    Text.size before = place.offset.toNat ∧
      place.column.toNat = 1 + (Text.lastLine before).length
  within : place.offset.toNat ≤ min offset.toNat source.length
  greatest : ∀ before after, source.chars = before ++ after →
    Text.size before ≤ min offset.toNat source.length → Text.size before ≤ place.offset.toNat
  line : place.line.toNat =
    1 + ((Text.bytes source.chars).take place.offset.toNat).count 0x0A
  lines : place.line.toNat ≤ source.lineCount

structure Position.Behind (place : Position) (before : List Char) : Prop where
  offset : place.offset.toNat = Text.size before
  line : place.line.toNat = before.count '\n' + 1
  column : place.column.toNat = (Text.lastLine before).length + 1

theorem SourceFile.position?_behind {source : SourceFile} (present : source.isPresent = true)
    (small : source.length < UInt32.size - 1) (offset : UInt64) :
    ∃ place before after, source.position? offset = some place ∧ source.chars = before ++ after ∧
      Text.size before = Text.floor offset.toNat source.chars ∧ place.Behind before := by
  obtain ⟨before, after, parts, width, found⟩ := Text.lookUp_parts offset.toNat source.chars
  have whole : source.length = Text.size before + Text.size after := by
    rw [SourceFile.length, parts, Text.size_append]
  have newlines : before.count '\n' ≤ Text.size before :=
    Nat.le_trans List.count_le_length (Text.length_le_size before)
  have behind : (Text.lastLine before).length ≤ Text.size before := by
    have shorter := (List.takeWhile_sublist (· ≠ '\n') (l := before.reverse)).length_le
    rw [List.length_reverse] at shorter
    rw [Text.lastLine, List.length_reverse]
    exact Nat.le_trans shorter (Text.length_le_size before)
  rw [UInt32.size] at small
  refine ⟨_, before, after, position?_found present found, parts, width, ?_, ?_, ?_⟩
  -- All three numbers fit into their words.
  · exact UInt64.toNat_ofNat_of_lt' (by rw [UInt64.size]; omega)
  · exact UInt32.toNat_ofNat_of_lt' (by rw [UInt32.size]; omega)
  · exact UInt32.toNat_ofNat_of_lt' (by rw [UInt32.size]; omega)

theorem Position.locates_floor {source : SourceFile} (present : source.isPresent = true)
    (small : source.length < UInt32.size - 1) (offset : UInt64) :
    ∃ place, source.position? offset = some place ∧ place.Locates source offset ∧
      place.offset.toNat = Text.floor offset.toNat source.chars := by
  obtain ⟨place, before, after, found, parts, width, behind⟩ :=
    SourceFile.position?_behind present small offset
  have inside := Text.floor_le_size offset.toNat source.chars
  refine ⟨place, found, ⟨?_, ?_, ?_, ?_, ?_⟩, behind.offset.trans width⟩
  · exact ⟨before, after, parts, behind.offset.symm, behind.column.trans (Nat.add_comm ..)⟩
  · have below := Text.floor_le offset.toNat source.chars
    rw [behind.offset, width, SourceFile.length]
    omega
  · intro left right cut fits
    have reaches : Text.size left ≤ Text.floor offset.toNat (left ++ right) :=
      Text.le_floor left right (by omega)
    rwa [behind.offset, width, cut]
  · rw [behind.offset, behind.line, parts, Text.take_bytes, Text.count_newline]
    exact Nat.add_comm ..
  · have more : before.count '\n' ≤ source.chars.count '\n' := by
      rw [parts, List.count_append]
      exact Nat.le_add_right ..
    rw [behind.line, SourceFile.lineCount_exact present, Text.count_newline]
    omega

-- Every offset has a place, for every source whose lines and columns can be counted in
-- words: going back over the bytes of a character ends at a boundary, the search in the
-- table never comes out in front of the first line, and nothing else on the way fails.
theorem position_exact {source : SourceFile} (present : source.isPresent = true)
    (small : source.length < UInt32.size - 1) (offset : UInt64) :
    let place := source.position offset
    source.position? offset = some place ∧ place.Locates source offset ∧
      source.lineCount = 1 + (Text.bytes source.chars).count 0x0A ∧
      Text.backOff (Text.bytes source.chars) (min offset.toNat source.length) =
        some place.offset.toNat ∧
      Text.isBoundary (Text.bytes source.chars) place.offset.toNat = true ∧
      ∀ sought, Text.search (Text.lineStarts source.chars).toArray sought 0 _ (Nat.le_refl _) ≠
        .error 0 := by
  obtain ⟨place, found, locates, floor⟩ := Position.locates_floor present small offset
  have same : source.position offset = place := by rw [SourceFile.position, found, Option.getD_some]
  have back := Text.backOff_floor offset.toNat source.chars
  rw [Text.length_bytes, ← floor] at back
  simp only [same]
  refine ⟨found, locates, SourceFile.lineCount_exact present, back, ?_, ?_⟩
  · rw [floor]
    exact (Text.isBoundary_exact _ _).mpr (Text.floor_boundary _ _)
  · exact fun sought => Text.search_not_first source.chars sought

def accented : SourceFile := .persistent "A.scala" "ab\ncé\n\nx"

theorem accented_positions :
    (∀ offset, (accented.position offset).Locates accented offset) ∧
      [3, 5, 7, 0xFFFFFFFFFFFFFFFF].map accented.position =
        [⟨3, 2, 1⟩, ⟨4, 2, 2⟩, ⟨7, 3, 1⟩, ⟨9, 4, 2⟩] :=
  ⟨fun offset => (position_exact rfl (by decide +kernel) offset).2.1, by decide +kernel⟩

end UnitPipeline
