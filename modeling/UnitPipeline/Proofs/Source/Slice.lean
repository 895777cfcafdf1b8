import UnitPipeline.Proofs.Source.Order

namespace UnitPipeline

namespace Text

theorem size_utf8Encode (text : List Char) : text.utf8Encode.size = size text := by
  rw [List.utf8Encode, List.size_toByteArray]
  exact length_bytes text

theorem initial_unique {a b text : List Char} (first : a <+: text) (second : b <+: text)
    (same : size a = size b) : a = b := by
  obtain ⟨more, rfl⟩ := initial_of_size first second (Nat.le_of_eq same)
  rw [size_append] at same
  rw [size_eq_zero.mp (by omega : size more = 0), List.append_nil]

theorem slice?_parts {start stop : Nat} {text inside : List Char}
    (found : slice? start stop text = some inside) :
    ∃ before after, text = before ++ (inside ++ after) ∧ size before = start ∧
      size (before ++ inside) = stop := by
  rw [slice?] at found
  split at found
  · rename_i ordered
    obtain ⟨⟨before, later⟩, first, found⟩ := Option.bind_eq_some_iff.mp found
    obtain ⟨⟨_, after⟩, second, rfl⟩ := Option.map_eq_some_iff.mp found
    obtain ⟨rfl, width⟩ := splitAt?_exact.mp first
    obtain ⟨rfl, wide⟩ := splitAt?_exact.mp second
    refine ⟨before, after, rfl, width, ?_⟩
    rw [size_append, width, wide]
    omega
  · cases found

end Text

namespace SourceFile
variable {source : SourceFile} {span : Span} {before inside after : List Char}

structure Cut (source : SourceFile) (span : Span) (before inside after : List Char) : Prop where
  parts : source.chars = before ++ (inside ++ after)
  start : Text.size before = span.start.toNat
  stop : Text.size (before ++ inside) = span.stop.toNat

theorem Cut.width (cut : source.Cut span before inside after) :
    Text.size before + Text.size inside = span.stop.toNat := by
  rw [← Text.size_append, cut.stop]

theorem Cut.text (cut : source.Cut span before inside after) :
    source.text span = String.ofList inside := by
  have width := cut.width
  have start := cut.start
  rw [SourceFile.text, Span.isEmpty]
  split
  · rename_i empty
    rw [decide_eq_true_eq, UInt64.le_iff_toNat_le] at empty
    have nothing : Text.size inside = 0 := by omega
    rw [Text.size_eq_zero.mp nothing]
  · rw [← cut.start, ← cut.stop, cut.parts, Text.slice?_exact, Option.getD_some]

theorem Cut.bounds (cut : source.Cut span before inside after) :
    source.Bounds span.start ∧ source.Bounds span.stop := by
  refine ⟨(Text.isBoundary_exact _ _).mpr ⟨before, inside ++ after, cut.parts, cut.start⟩, ?_⟩
  refine (Text.isBoundary_exact _ _).mpr ⟨before ++ inside, after, ?_, cut.stop⟩
  rw [cut.parts, List.append_assoc]

theorem Bounds.cut {a b : UInt64} (first : source.Bounds a) (second : source.Bounds b)
    (ordered : a ≤ b) : ∃ before inside after, source.Cut ⟨a, b⟩ before inside after := by
  rw [UInt64.le_iff_toNat_le] at ordered
  obtain ⟨before, later, parts, start⟩ := (Text.isBoundary_exact _ _).mp first
  obtain ⟨upTo, after, whole, stop⟩ := (Text.isBoundary_exact _ _).mp second
  obtain ⟨inside, rfl⟩ := Text.initial_of_size (parts ▸ List.prefix_append before later)
    (whole ▸ List.prefix_append upTo after) (by omega)
  exact ⟨before, inside, after, by rw [whole, List.append_assoc], start, stop⟩

theorem cut_of_text (filled : source.text span ≠ "") :
    ∃ before inside after, source.Cut span before inside after ∧ inside ≠ [] := by
  rw [text] at filled
  split at filled
  · contradiction
  · cases found : Text.slice? span.start.toNat span.stop.toNat source.chars with
    | none =>
      rw [found] at filled
      contradiction
    | some inside =>
      rw [found, Option.getD_some, ne_eq, String.ofList_eq_empty_iff] at filled
      obtain ⟨before, after, parts, start, stop⟩ := Text.slice?_parts found
      exact ⟨before, inside, after, ⟨parts, start, stop⟩, filled⟩

theorem Bounds.within {offset : UInt64} (lies : source.Bounds offset) :
    offset.toNat ≤ source.length := by
  obtain ⟨before, after, parts, width⟩ := (Text.isBoundary_exact _ _).mp lies
  rw [length, parts, Text.size_append]
  omega

theorem text_filled_iff : source.text span ≠ "" ↔ span.start < span.stop ∧
    span.stop.toNat ≤ source.length ∧ source.Bounds span.start ∧ source.Bounds span.stop := by
  constructor
  · intro filled
    obtain ⟨before, inside, after, cut, some⟩ := cut_of_text filled
    have width := cut.width
    have start := cut.start
    have wide := Nat.pos_of_ne_zero (mt Text.size_eq_zero.mp some)
    refine ⟨UInt64.lt_iff_toNat_lt.mpr (by omega), cut.bounds.2.within, cut.bounds⟩
  · rintro ⟨apart, _, first, second⟩
    obtain ⟨before, inside, after, cut⟩ := first.cut second (UInt64.le_of_lt apart)
    have width := cut.width
    have start := cut.start
    rw [UInt64.lt_iff_toNat_lt] at apart
    rw [cut.text, ne_eq, String.ofList_eq_empty_iff]
    rintro rfl
    rw [Text.size] at width
    simp only at width start
    omega

theorem Cut.bytes (cut : source.Cut span before inside after) : (source.text span).toByteArray =
    source.content.toByteArray.extract span.start.toNat span.stop.toNat := by
  have whole : source.content.toByteArray =
      before.utf8Encode ++ (inside.utf8Encode ++ after.utf8Encode) := by
    rw [← String.utf8Encode_toList, ← List.utf8Encode_append, ← List.utf8Encode_append]
    exact congrArg List.utf8Encode cut.parts
  have stop := cut.width
  rw [cut.text, String.toByteArray_ofList, whole, ← cut.start, ← stop, ← Text.size_utf8Encode,
    ← Text.size_utf8Encode, ← Nat.add_zero before.utf8Encode.size, Nat.add_assoc, Nat.zero_add,
    ByteArray.extract_append_size_add, ByteArray.extract_append_eq_left rfl]

theorem Cut.size (cut : source.Cut span before inside after) :
    (source.text span).utf8ByteSize = span.length.toNat := by
  have width := cut.width
  have start := cut.start
  rw [cut.text, ← String.size_toByteArray, String.toByteArray_ofList, Text.size_utf8Encode,
    Span.length_exact]
  omega

theorem text_append {a b c : UInt64} (first : source.Bounds a) (second : source.Bounds b)
    (third : source.Bounds c) (lower : a ≤ b) (upper : b ≤ c) :
    source.text ⟨a, b⟩ ++ source.text ⟨b, c⟩ = source.text ⟨a, c⟩ := by
  obtain ⟨before, inside, later, here⟩ := first.cut second lower
  obtain ⟨upTo, more, after, there⟩ := second.cut third upper
  have initial : before ++ inside <+: source.chars :=
    ⟨later, by rw [here.parts, List.append_assoc]⟩
  obtain rfl : before ++ inside = upTo :=
    Text.initial_unique initial ⟨_, there.parts.symm⟩ (here.stop.trans there.start.symm)
  have both : source.Cut ⟨a, c⟩ before (inside ++ more) after := by
    refine ⟨?_, here.start, ?_⟩
    · rw [there.parts, List.append_assoc, List.append_assoc]
    · rw [← List.append_assoc, there.stop]
  rw [here.text, there.text, both.text, String.ofList_append]

theorem text_whole {stop : UInt64} (all : stop.toNat = source.length) :
    source.text ⟨0, stop⟩ = source.content := by
  have cut : source.Cut ⟨0, stop⟩ [] source.chars [] :=
    ⟨(List.append_nil _).symm, rfl, all.symm⟩
  rw [cut.text, chars, String.ofList_toList]

theorem text_nowhere (offset : UInt64) : source.text ⟨offset, offset⟩ = "" := by
  have empty : Span.isEmpty ⟨offset, offset⟩ = true := decide_eq_true (UInt64.le_refl offset)
  rw [text, if_pos empty]

def textsBetween (source : SourceFile) : List UInt64 → List String
  | a :: b :: rest => source.text ⟨a, b⟩ :: source.textsBetween (b :: rest)
  | _ => []

theorem textsBetween_join {first last : UInt64} {rest : List UInt64}
    (increasing : (first :: rest).Pairwise (· ≤ ·))
    (bounds : ∀ offset ∈ first :: rest, source.Bounds offset)
    (ends : (first :: rest).getLast? = some last) :
    String.join (source.textsBetween (first :: rest)) = source.text ⟨first, last⟩ := by
  induction rest generalizing first with
  | nil =>
    cases ends
    exact (text_nowhere first).symm
  | cons next rest ih =>
    obtain ⟨above, others⟩ := List.pairwise_cons.mp increasing
    obtain ⟨here, there⟩ := List.forall_mem_cons.mp bounds
    rw [List.getLast?_cons_cons] at ends
    have inside := List.mem_of_getLast? ends
    have reaches : next ≤ last := by
      rcases List.mem_cons.mp inside with rfl | later
      · exact UInt64.le_refl _
      · exact (List.pairwise_cons.mp others).1 last later
    rw [textsBetween, String.join_cons, ih others there ends]
    exact text_append here (there next List.mem_cons_self) (there last inside)
      (above next List.mem_cons_self) reaches

-- A text in a text: what a span inside another covers is covered by the same span, moved
-- to where the outer one starts, in a source that holds no more than the outer text.
theorem text_inside {outer inner : Span} (lies : outer.contains inner = true)
    (wide : source.text outer ≠ "") (narrow : source.text inner ≠ "") {part : SourceFile}
    (holds : part.content = source.text outer) :
    part.text ⟨inner.start - outer.start, inner.stop - outer.start⟩ = source.text inner := by
  obtain ⟨before, around, after, cut, _⟩ := cut_of_text wide
  obtain ⟨upTo, inside, later, found, _⟩ := cut_of_text narrow
  obtain ⟨starts, stops⟩ := Span.contains_exact.mp lies
  have outerStart := cut.start
  have innerStart := found.start
  have innerStop := found.width
  obtain ⟨lead, rfl⟩ : before <+: upTo :=
    Text.initial_of_size ⟨_, cut.parts.symm⟩ ⟨_, found.parts.symm⟩ (by omega)
  have shorter : before ++ lead ++ inside <+: source.chars :=
    ⟨later, by rw [found.parts, List.append_assoc]⟩
  have longer : before ++ around <+: source.chars :=
    ⟨after, by rw [cut.parts, List.append_assoc]⟩
  obtain ⟨rest, parts⟩ : before ++ lead ++ inside <+: before ++ around :=
    Text.initial_of_size shorter longer (by rw [found.stop, cut.stop]; exact stops)
  rw [List.append_assoc, List.append_assoc, List.append_cancel_left_eq] at parts
  rw [Text.size_append] at innerStart innerStop
  have moved : part.Cut ⟨inner.start - outer.start, inner.stop - outer.start⟩ lead inside rest := by
    refine ⟨?_, ?_, ?_⟩
    · rw [chars, holds, cut.text, String.toList_ofList, ← parts]
    · rw [UInt64.toNat_sub_of_le _ _ (UInt64.le_iff_toNat_le.mpr starts)]
      omega
    · have reaches : outer.start ≤ inner.stop := UInt64.le_iff_toNat_le.mpr (by omega)
      rw [UInt64.toNat_sub_of_le _ _ reaches, Text.size_append]
      omega
  rw [moved.text, found.text]

end SourceFile

-- For all spans, inverted and misaligned ones and those past the end included.
theorem texts_exact (source : SourceFile) :
    (∀ span, (source.text span ≠ "" ↔ span.start < span.stop ∧
        span.stop.toNat ≤ source.length ∧ source.Bounds span.start ∧ source.Bounds span.stop) ∧
      (source.text span ≠ "" →
        (source.text span).toByteArray =
            source.content.toByteArray.extract span.start.toNat span.stop.toNat ∧
          (source.text span).utf8ByteSize = span.length.toNat)) ∧
      (∀ a b c, source.Bounds a → source.Bounds b → source.Bounds c → a ≤ b → b ≤ c →
        source.text ⟨a, b⟩ ++ source.text ⟨b, c⟩ = source.text ⟨a, c⟩) ∧
      (∀ (last : UInt64) (offsets : List UInt64), last.toNat = source.length →
        offsets.Pairwise (· ≤ ·) → (∀ offset ∈ offsets, source.Bounds offset) →
        offsets.head? = some 0 → offsets.getLast? = some last →
        String.join (source.textsBetween offsets) = source.content) ∧
      ∀ outer inner : Span, outer.contains inner → source.text outer ≠ "" →
        source.text inner ≠ "" → ∀ part : SourceFile, part.content = source.text outer →
          part.text ⟨inner.start - outer.start, inner.stop - outer.start⟩ = source.text inner := by
  refine ⟨?_, ?_, ?_, ?_⟩
  · intro span
    refine ⟨SourceFile.text_filled_iff, fun filled => ?_⟩
    obtain ⟨_, _, _, cut, _⟩ := SourceFile.cut_of_text filled
    exact ⟨cut.bytes, cut.size⟩
  · exact fun a b c => SourceFile.text_append
  · intro last offsets all increasing bounds starts ends
    cases offsets with
    | nil => cases starts
    | cons first rest =>
      cases starts
      rw [SourceFile.textsBetween_join increasing bounds ends, SourceFile.text_whole all]
  · exact fun outer inner lies wide narrow part => SourceFile.text_inside lies wide narrow

theorem accented_texts :
    String.join (accented.textsBetween [0, 4, 6, 6, 9]) = accented.content ∧
      (SourceFile.inMemory "part" "cé

x").text ⟨1, 3⟩ = accented.text ⟨4, 6⟩ ∧
      (accented.text ⟨4, 6⟩).utf8ByteSize = 2 ∧
      ∀ span ∈ ([⟨4, 5⟩, ⟨6, 4⟩, ⟨8, 10⟩] : List Span), accented.text span = "" := by
  obtain ⟨texts, _, tiles, nested⟩ := texts_exact accented
  have outer : accented.text ⟨3, 9⟩ = "cé

x" := by decide +kernel
  have inner : accented.text ⟨4, 6⟩ = "é" := by decide +kernel
  refine ⟨?_, ?_, ?_, by decide +kernel⟩
  · refine tiles 9 _ (by decide +kernel) (by decide) ?_ rfl rfl
    intro offset listed
    simp only [List.mem_cons, List.not_mem_nil, or_false] at listed
    rcases listed with rfl | rfl | rfl | rfl | rfl <;> rw [SourceFile.Bounds] <;> decide +kernel
  · refine nested ⟨3, 9⟩ ⟨4, 6⟩ rfl ?_ ?_ _ outer.symm
    · rw [outer]
      decide
    · rw [inner]
      decide
  · refine ((texts _).2 ?_).2
    rw [inner]
    decide

end UnitPipeline
