import UnitPipeline.Proofs.Json.RoundTrip
import UnitPipeline.Proofs.Json.Written

namespace UnitPipeline.Json

-- What a reader makes of a text that is written by hand. Errors are not told apart here:
-- results are compared as options.

theorem toOption_map (f : α → β) (result : Except ε α) :
    (result.map f).toOption = result.toOption.map f := by
  cases result <;> rfl

theorem toOption_some {result : Except ε α} : result.toOption = some a ↔ result = .ok a := by
  cases result with
  | error cause => exact ⟨nofun, nofun⟩
  | ok b => exact ⟨fun same => congrArg Except.ok (Option.some.inj same), fun same => same ▸ rfl⟩

theorem toOption_none {result : Except ε α} :
    result.toOption = none ↔ ∃ cause, result = .error cause := by
  cases result with
  | error cause => exact ⟨fun _ => ⟨cause, rfl⟩, fun _ => rfl⟩
  | ok a => exact ⟨nofun, nofun⟩

theorem skipSpace_gap (gap : Gap) (rest : List Char) :
    skipSpace (gap.text ++ rest) = skipSpace rest := by
  refine List.dropWhile_append_of_pos fun c inside => ?_
  obtain ⟨blank, _, rfl⟩ := List.mem_map.mp inside
  cases blank <;> rfl

theorem skipSpace_all (gap : Gap) : skipSpace gap.text = [] := by
  have skipped := skipSpace_gap gap []
  rwa [List.append_nil] at skipped

theorem gap_ends (gap : Gap) (ends : EndsNumber rest) : EndsNumber (gap.text ++ rest) := by
  cases gap with
  | nil => exact ends
  | cons blank gap => cases blank <;> exact ⟨rfl, by decide, rfl⟩

theorem hexValue_char (d : HexDigit) : hexValue? d.char = some d.value := by
  have all : ∀ v : Fin 16, ∀ capital, hexValue? (HexDigit.mk v capital).char = some v := by decide
  exact all d.value d.capital

theorem readFourHex_text (h : FourHex) (rest : List Char) :
    readFourHex (h.text ++ rest) = .ok (h.number, rest) := by
  simp only [FourHex.text, List.cons_append, List.nil_append, readFourHex, hexValue_char]
  rfl

theorem readEscape_letter (e : Escape) (rest : List Char) :
    readEscape (e.letter :: rest) = .ok (e.char, rest) := by
  cases e <;> rfl

theorem isLeadSurrogate_iff : isLeadSurrogate n = true ↔ 0xd800 ≤ n ∧ n < 0xdc00 := by
  rw [isLeadSurrogate, Bool.and_eq_true_iff, decide_eq_true_eq, decide_eq_true_eq]
  omega

theorem isTrailSurrogate_iff : isTrailSurrogate n = true ↔ 0xdc00 ≤ n ∧ n ≤ 0xdfff := by
  rw [isTrailSurrogate, Bool.and_eq_true_iff, decide_eq_true_eq, decide_eq_true_eq]

theorem readUnicode_basic {h : FourHex} (basic : h.number < 0xd800 ∨ 0xdfff < h.number)
    (rest : List Char) : readUnicode (h.text ++ rest) = .ok (.ofNat h.number, rest) := by
  have trail : ¬isTrailSurrogate h.number = true := by
    rw [isTrailSurrogate_iff]
    omega
  have lead : ¬isLeadSurrogate h.number = true := by
    rw [isLeadSurrogate_iff]
    omega
  simp only [readUnicode, readFourHex_text, if_neg trail, if_neg lead]

section
variable {h other : FourHex} {rest : List Char}

theorem readUnicode_pair (lead : 0xd800 ≤ h.number ∧ h.number < 0xdc00)
    (trail : 0xdc00 ≤ other.number ∧ other.number ≤ 0xdfff) :
    readUnicode (h.text ++ ('\\' :: 'u' :: other.text ++ rest)) =
      .ok (h.joined other, rest) := by
  have first : ¬isTrailSurrogate h.number = true := by
    rw [isTrailSurrogate_iff]
    omega
  simp only [readUnicode, List.cons_append, readFourHex_text, if_neg first,
    if_pos (isLeadSurrogate_iff.mpr lead), if_true, if_pos (isTrailSurrogate_iff.mpr trail),
    FourHex.joined]

theorem readUnicode_unpaired (half : 0xd800 ≤ h.number ∧ h.number ≤ 0xdfff)
    (apart : ¬(h.number < 0xdc00 ∧ 0xdc00 ≤ other.number ∧ other.number ≤ 0xdfff)) :
    (readUnicode (h.text ++ ('\\' :: 'u' :: other.text ++ rest))).toOption = none := by
  by_cases trail : isTrailSurrogate h.number = true
  · simp only [readUnicode, readFourHex_text, if_pos trail]
    rfl
  · have lead : isLeadSurrogate h.number = true := by
      rw [isTrailSurrogate_iff] at trail
      rw [isLeadSurrogate_iff]
      omega
    have single : ¬isTrailSurrogate other.number = true := by
      rw [isLeadSurrogate_iff] at lead
      rw [isTrailSurrogate_iff]
      omega
    simp only [readUnicode, List.cons_append, readFourHex_text, if_neg trail, if_pos lead, if_true,
      if_neg single]
    rfl

theorem readUnicode_alone (half : 0xd800 ≤ h.number ∧ h.number ≤ 0xdfff)
    (alone : ∀ later, rest ≠ '\\' :: 'u' :: later) :
    (readUnicode (h.text ++ rest)).toOption = none := by
  simp only [readUnicode, readFourHex_text]
  split
  · rfl
  · split
    · split
      · rfl
      · split
        · split
          · rfl
          · split
            · rename_i backslash _ _ _ letter
              subst backslash letter
              exact absurd rfl (alone _)
            · rfl
        · rfl
    · rename_i trail lead
      rw [isTrailSurrogate_iff] at trail
      rw [isLeadSurrogate_iff] at lead
      omega

end

theorem pieces_alone {pieces : List Piece} (alone : ∀ h more, pieces ≠ .number h :: more)
    (rest later : List Char) : pieces.flatMap Piece.text ++ '"' :: rest ≠ '\\' :: 'u' :: later := by
  intro same
  cases pieces with
  | nil => cases same
  | cons piece pieces =>
    cases piece with
    | plain c shown =>
      obtain rfl : c = '\\' := (List.cons.inj same).1
      cases shown
    | escape e => cases e <;> cases same
    | number h => exact alone h pieces rfl

section
variable {fuel : Nat} {c : Char} {text more rest : List Char} {chars : Option (List Char)}

theorem readChars_plain (shown : standsAlone c = true)
    (later : (readChars readEscape fuel text).toOption = chars.map fun cs => (cs, rest)) :
    (readChars readEscape (fuel + 1) (c :: text)).toOption =
      (chars.map (c :: ·)).map fun cs => (cs, rest) := by
  simp only [standsAlone, Bool.and_eq_true, decide_eq_true_eq] at shown
  obtain ⟨⟨control, quote⟩, backslash⟩ := shown
  rw [readChars, if_neg quote, if_neg backslash, if_neg (Nat.not_lt.mpr control), toOption_map,
    later, Option.map_map, Option.map_map]
  rfl

theorem readChars_escaped (one : readEscape text = .ok (c, more))
    (later : (readChars readEscape fuel more).toOption = chars.map fun cs => (cs, rest)) :
    (readChars readEscape (fuel + 1) ('\\' :: text)).toOption =
      (chars.map (c :: ·)).map fun cs => (cs, rest) := by
  have backslash : '\\' ≠ '"' := by decide
  simp only [readChars, if_neg backslash, if_true, one]
  rw [toOption_map, later, Option.map_map, Option.map_map]
  rfl

theorem readChars_broken (broken : (readEscape text).toOption = none) :
    (readChars readEscape (fuel + 1) ('\\' :: text)).toOption = none := by
  have backslash : '\\' ≠ '"' := by decide
  rw [readChars, if_neg backslash, if_pos rfl]
  obtain ⟨cause, failed⟩ := toOption_none.mp broken
  rw [failed]
  rfl

end

-- The characters that are spelled are those that are read. The induction is on how they are
-- spelled, so that a pair of halves is one step.
theorem readChars_pieces (pieces : List Piece) (rest : List Char) (enough : pieces.length ≤ fuel) :
    (readChars readEscape (fuel + 1) (pieces.flatMap Piece.text ++ '"' :: rest)).toOption =
      (spelled pieces).map fun chars => (chars, rest) := by
  fun_induction spelled pieces generalizing fuel with
  | case1 => rfl
  | case2 c shown pieces ih =>
    obtain ⟨fuel, rfl⟩ := fuel_left enough
    exact readChars_plain shown (ih (Nat.le_of_succ_le_succ enough))
  | case3 e pieces ih =>
    obtain ⟨fuel, rfl⟩ := fuel_left enough
    exact readChars_escaped (readEscape_letter e _) (ih (Nat.le_of_succ_le_succ enough))
  | case4 h pieces basic ih =>
    obtain ⟨fuel, rfl⟩ := fuel_left enough
    exact readChars_escaped (readUnicode_basic basic _) (ih (Nat.le_of_succ_le_succ enough))
  | case5 h half other pieces pair ih =>
    obtain ⟨fuel, rfl⟩ := fuel_left enough
    have lead : 0xd800 ≤ h.number ∧ h.number < 0xdc00 := by omega
    exact readChars_escaped (readUnicode_pair lead pair.2)
      (ih (Nat.le_of_succ_le (Nat.le_of_succ_le_succ enough)))
  | case6 h half other pieces apart =>
    have half : 0xd800 ≤ h.number ∧ h.number ≤ 0xdfff := by omega
    exact readChars_broken (readUnicode_unpaired half apart)
  | case7 h pieces half alone =>
    have half : 0xd800 ≤ h.number ∧ h.number ≤ 0xdfff := by omega
    exact readChars_broken (readUnicode_alone half (pieces_alone alone _))

theorem length_pieces (pieces : List Piece) :
    pieces.length ≤ (pieces.flatMap Piece.text).length := by
  refine length_le_flatMap (fun piece => ?_) pieces
  cases piece <;> exact Nat.zero_lt_succ _

theorem readQuoted_pieces (pieces : List Piece) (rest : List Char) :
    (readQuoted (pieces.flatMap Piece.text ++ '"' :: rest)).toOption =
      (spelled pieces).map fun chars => (chars, rest) := by
  refine readChars_pieces pieces rest (Nat.le_trans (length_pieces pieces) ?_)
  rw [List.length_append]
  exact Nat.le_add_right _ _

-- Numbers. Only the digits of an integer, with no mark of a real number behind them, are
-- read as an unsigned one.
theorem finishReal_real :
    finishReal negative significand exponent text ≠ .ok (.unsigned n, rest) := by
  intro found
  rw [finishReal] at found
  split at found <;> cases found

theorem readExponent_real :
    readExponent negative significand before text ≠ .ok (.unsigned n, rest) := by
  intro found
  rw [readExponent.eq_def] at found
  split at found
  rename_i down digits _
  cases digits with
  | nil => cases found
  | cons c digits =>
    dsimp only at found
    split at found
    · split at found
      · exact finishReal_real found
      · split at found <;> cases found
    · cases found

theorem readPlaces_real :
    readPlaces negative significand before text ≠ .ok (.unsigned n, rest) := by
  intro found
  simp only [readPlaces] at found
  split at found
  · split at found
    · cases found
    · exact finishReal_real found
  · split at found
    · split at found
      · exact finishReal_real found
      · split at found
        · exact readExponent_real found
        · exact finishReal_real found
    · split at found
      · cases found
      · split at found
        · exact readExponent_real found
        · exact finishReal_real found

theorem whole_unsigned {negative : Bool} {significand n : Nat} {dropped later rest : List Char}
    (found : (if dropped ≠ [] ∨ negative = true ∧
        (significand = 0 ∨ negativeLimit < significand) then
      finishReal negative significand dropped.length later
    else .ok (if dropped ≠ [] then .unsigned significand
      else if negative = true then .negative significand else .unsigned significand, later)) =
      .ok (.unsigned n, rest)) :
    negative = false ∧ n = significand ∧ dropped = [] ∧ later = rest := by
  split at found
  · exact absurd found finishReal_real
  · rename_i whole
    obtain rfl := not_not.mp (not_or.mp whole).1
    rw [if_neg (not_not.mpr rfl)] at found
    cases negative <;> cases found
    exact ⟨rfl, rfl, rfl, rfl⟩

theorem readTail_unsigned
    (found : readTail negative significand text = .ok (.unsigned n, rest)) :
    negative = false ∧ n = significand ∧ text = rest ∧ EndsNumber rest := by
  have parts := List.takeWhile_append_dropWhile (p := Char.isDigit) (l := text)
  have stops := List.head?_dropWhile_not Char.isDigit text
  simp only [readTail] at found
  generalize text.takeWhile Char.isDigit = dropped at found parts
  generalize text.dropWhile Char.isDigit = later at found parts stops
  split at found
  · exact absurd found readPlaces_real
  · rename_i c more point
    split at found
    · exact absurd found readExponent_real
    · rename_i mark
      obtain ⟨sign, same, rfl, rfl⟩ := whole_unsigned found
      exact ⟨sign, same, parts.symm, stops, point, Bool.eq_false_iff.mpr mark⟩
  · obtain ⟨sign, same, rfl, rfl⟩ := whole_unsigned found
    exact ⟨sign, same, parts.symm, trivial⟩

theorem takeDigits_parts (value count : Nat) (text : List Char) : ∃ digits,
    text = digits ++ (takeDigits value count text).2.2 ∧ (∀ c ∈ digits, c.isDigit = true) ∧
      (takeDigits value count text).1 = Nat.ofDigitChars 10 digits value ∧
      (value < wordLimit → (takeDigits value count text).1 < wordLimit) := by
  fun_induction takeDigits value count text with
  | case1 value count => exact ⟨[], rfl, nofun, rfl, id⟩
  | case2 value count c rest digit next below ih =>
    obtain ⟨digits, parts, all, total, fits⟩ := ih
    refine ⟨c :: digits, congrArg (c :: ·) parts, List.forall_mem_cons.mpr ⟨digit, all⟩, ?_, ?_⟩
    · rw [total, Nat.ofDigitChars_cons, Nat.mul_comm]
      rfl
    · exact fun _ => fits below
  | case3 value count c rest digit next above => exact ⟨[], rfl, nofun, rfl, id⟩
  | case4 value count c rest other => exact ⟨[], rfl, nofun, rfl, id⟩

theorem digitValue_lt (digit : c.isDigit = true) : digitValue c < 10 := by
  rw [Char.isDigit, Bool.and_eq_true, decide_eq_true_eq, decide_eq_true_eq] at digit
  have last := UInt32.le_iff_toNat_le.mp digit.2
  change c.toNat - 48 < 10
  change c.toNat ≤ 57 at last
  omega

theorem readNumeral_unsigned (found : readNumeral negative text = .ok (.unsigned n, rest)) :
    negative = false ∧ ∃ digits, text = digits ++ rest ∧ (∀ c ∈ digits, c.isDigit = true) ∧
      n = Nat.ofDigitChars 10 digits 0 ∧ n < wordLimit ∧ EndsNumber rest := by
  cases text with
  | nil => cases found
  | cons c later =>
    simp only [readNumeral] at found
    split at found
    · rename_i zero
      subst zero
      have tail : readTail negative 0 later = .ok (.unsigned n, rest) := by
        split at found
        · split at found
          · cases found
          · exact found
        · exact found
      obtain ⟨sign, rfl, rfl, ends⟩ := readTail_unsigned tail
      refine ⟨sign, ['0'], rfl, ?_, rfl, by decide, ends⟩
      intro c inside
      cases List.mem_singleton.mp inside
      rfl
    · split at found
      · rename_i digit
        obtain ⟨digits, parts, all, total, fits⟩ := takeDigits_parts (digitValue c) 1 later
        obtain ⟨sign, rfl, rfl, ends⟩ := readTail_unsigned found
        refine ⟨sign, c :: digits, congrArg (c :: ·) parts, List.forall_mem_cons.mpr ⟨digit, all⟩,
          ?_, fits ?_, ends⟩
        · rw [total, Nat.ofDigitChars_cons, Nat.mul_zero, Nat.zero_add]
          rfl
        · exact Nat.lt_of_lt_of_le (digitValue_lt digit) (by decide)
      · cases found

theorem takeWhile_digits {digits rest : List Char} (all : ∀ c ∈ digits, c.isDigit = true)
    (stops : ∀ c ∈ rest.head?, c.isDigit = false) :
    (digits ++ rest).takeWhile Char.isDigit = digits := by
  rw [List.takeWhile_append_of_pos all]
  cases rest with
  | nil => exact List.append_nil digits
  | cons c rest =>
    rw [List.takeWhile_cons, stops c rfl]
    exact List.append_nil digits

theorem EndsNumber.stops {rest : List Char} (ends : EndsNumber rest) :
    ∀ c ∈ rest.head?, c.isDigit = false := by
  cases rest with
  | nil => exact nofun
  | cons c rest =>
    rintro d ⟨⟩
    exact ends.1

namespace NumberText
variable {n : NumberText} {rest : List Char}

theorem tail_stops (n : NumberText) (ends : EndsNumber rest) :
    ∀ c ∈ (n.tail ++ rest).head?, c.isDigit = false := by
  obtain ⟨_, _, fraction, exponent⟩ := n
  cases fraction with
  | some digits =>
    rintro c ⟨⟩
    rfl
  | none =>
    cases exponent with
    | some e =>
      rintro c ⟨⟩
      cases e.capital <;> rfl
    | none => exact ends.stops

theorem tail_none (ends : EndsNumber (n.tail ++ rest)) :
    n.fraction.isNone ∧ n.exponent.isNone := by
  obtain ⟨_, _, fraction, exponent⟩ := n
  cases fraction with
  | some digits => exact absurd rfl ends.2.1
  | none =>
    cases exponent with
    | some e =>
      obtain ⟨_, _, mark⟩ := ends
      cases capital : e.capital <;> simp [isExponentMark, capital] at mark
    | none => exact ⟨rfl, rfl⟩

theorem word?_some : n.word? = some value ↔ (n.negative = false ∧ n.fraction.isNone = true ∧
    n.exponent.isNone = true ∧ n.whole < UInt64.size) ∧ .ofNat n.whole = value := by
  rw [word?]
  split
  · rename_i integer
    exact ⟨fun same => ⟨integer, Option.some.inj same⟩, fun both => congrArg some both.2⟩
  · rename_i other
    exact ⟨nofun, fun both => absurd both.1 other⟩

theorem text_of_word (word : n.word? = some value) : n.text = writeNat value.toNat := by
  obtain ⟨⟨sign, fraction, exponent, fits⟩, rfl⟩ := word?_some.mp word
  rw [Option.isNone_iff_eq_none] at fraction exponent
  rw [text, tail, sign, fraction, exponent, UInt64.toNat_ofNat_of_lt' fits]
  exact List.append_nil _

theorem word_of_read (ends : EndsNumber rest)
    (read : readNumeral n.negative (writeNat n.whole ++ (n.tail ++ rest)) =
      .ok (.unsigned m, later)) : n.word? = some (.ofNat n.whole) := by
  obtain ⟨sign, digits, parts, all, rfl, fits, stops⟩ := readNumeral_unsigned read
  have written : ∀ c ∈ writeNat n.whole, c.isDigit = true :=
    fun c inside => Nat.isDigit_of_mem_toDigits (by decide) (by decide) inside
  have same := congrArg (List.takeWhile Char.isDigit) parts
  rw [takeWhile_digits written (n.tail_stops ends), takeWhile_digits all stops.stops] at same
  subst same
  obtain rfl := List.append_cancel_left parts
  obtain ⟨fraction, exponent⟩ := tail_none stops
  rw [writeNat, Nat.ofDigitChars_ten_toDigits] at fits
  exact word?_some.mpr ⟨⟨sign, fraction, exponent, fits⟩, rfl⟩

theorem readWidth_eq (w : Width) (n : NumberText) (rest : List Char) :
    (readWidth w (n.text ++ rest)).toOption =
      (readNumeral n.negative (writeNat n.whole ++ (n.tail ++ rest))).toOption.bind fun found =>
        (w.accept found.1).toOption.map fun value => (value, found.2) := by
  rw [text, List.append_assoc, List.append_assoc]
  cases n.negative with
  | true =>
    rw [if_pos rfl, List.cons_append, readWidth, skipSpace_cons rfl]
    simp only [List.nil_append, if_true]
    cases readNumeral true _ with
    | error cause => rfl
    | ok found => exact toOption_map _ _
  | false =>
    rw [if_neg Bool.false_ne_true, List.nil_append, readWidth_digits]
    cases readNumeral false _ with
    | error cause => rfl
    | ok found => exact toOption_map _ _

theorem readWidth_text (n : NumberText) (ends : EndsNumber rest) :
    (readWidth .word64 (n.text ++ rest)).toOption = n.word?.map fun value => (value, rest) := by
  cases word : n.word? with
  | some value =>
    have read := readWidth_write .word64 value ends
    rw [text_of_word word]
    exact toOption_some.mpr read
  | none =>
    rw [readWidth_eq]
    refine Option.eq_none_iff_forall_ne_some.mpr fun found given => ?_
    obtain ⟨⟨numeral, later⟩, read, given⟩ := Option.bind_eq_some_iff.mp given
    obtain ⟨value, accepted, _⟩ := Option.map_eq_some_iff.mp given
    cases numeral with
    | unsigned m =>
      rw [word_of_read ends (toOption_some.mp read)] at word
      cases word
    | negative size => cases accepted
    | real negative size => cases accepted

end NumberText

theorem readFlag_number (n : NumberText) (rest : List Char) :
    (readFlag (n.text ++ rest)).toOption = none := by
  rw [NumberText.text]
  cases n.negative with
  | true => rfl
  | false =>
    have opens := writeNat_opens n.whole
    obtain ⟨c, digits, written, digit⟩ := writeNat_cons n.whole
    rw [written] at opens ⊢
    rw [if_neg Bool.false_ne_true, List.nil_append, List.cons_append, List.cons_append, readFlag,
      skipSpace_cons opens.1]
    split
    · rename_i begins
      cases begins
      cases digit
    · rename_i begins
      cases begins
      cases digit
    · rfl

theorem readFlag_written (value : Written) (rest : List Char) :
    (readFlag (value.text ++ rest)).toOption = value.flag?.map fun on => (on, rest) := by
  cases value with
  | null => rfl
  | flag on => cases on <;> rfl
  | number n => exact readFlag_number n rest
  | quoted pieces => rfl
  | list lead items => rfl
  | object lead members => rfl

theorem readWidth_written (value : Written) (ends : EndsNumber rest) :
    (readWidth .word64 (value.text ++ rest)).toOption =
      value.word?.map fun word => (word, rest) := by
  cases value with
  | null => rfl
  | flag on => cases on <;> rfl
  | number n => exact n.readWidth_text ends
  | quoted pieces => rfl
  | list lead items => rfl
  | object lead members => rfl

theorem readFlag_gap (gap : Gap) (text : List Char) :
    readFlag (gap.text ++ text) = readFlag text := by
  rw [readFlag, skipSpace_gap, readFlag]

theorem readWidth_gap (w : Width) (gap : Gap) (text : List Char) :
    readWidth w (gap.text ++ text) = readWidth w text := by
  rw [readWidth, skipSpace_gap, readWidth]

end UnitPipeline.Json
