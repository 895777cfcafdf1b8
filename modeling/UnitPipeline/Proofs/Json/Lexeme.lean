import Mathlib.Data.List.Nodup
import UnitPipeline.Json.Read
import UnitPipeline.Json.Write

namespace UnitPipeline.Json

theorem skipSpace_cons (solid : isSpace c = false) (rest : List Char) :
    skipSpace (c :: rest) = c :: rest := by
  rw [skipSpace, List.dropWhile_cons, if_neg (Bool.eq_false_iff.mp solid)]

theorem hexValue_hexDigit (small : d < 16) : hexValue? (Text.hexDigit d) = some d := by
  have all : ∀ d < 16, hexValue? (Text.hexDigit d) = some d := by decide
  exact all d small

theorem readUnicode_control {c : Char} (control : c.toNat < 0x20) (rest : List Char) :
    readUnicode
        ('0' :: '0' :: Text.hexDigit (c.toNat / 16) :: Text.hexDigit (c.toNat % 16) :: rest) =
      .ok (c, rest) := by
  have zero : hexValue? '0' = some 0 := rfl
  have high := hexValue_hexDigit (d := c.toNat / 16) (by omega)
  have low := hexValue_hexDigit (d := c.toNat % 16) (by omega)
  have number : ((0 * 16 + 0) * 16 + c.toNat / 16) * 16 + c.toNat % 16 = c.toNat := by omega
  have trail : isTrailSurrogate c.toNat = false := by
    simp only [isTrailSurrogate, Bool.and_eq_false_iff, decide_eq_false_iff_not]
    omega
  have lead : isLeadSurrogate c.toNat = false := by
    simp only [isLeadSurrogate, Bool.and_eq_false_iff, decide_eq_false_iff_not]
    omega
  simp only [readUnicode, readFourHex, zero, high, low, number, trail, lead, Bool.false_eq_true,
    if_false, Char.ofNat_toNat]

theorem readChars_writeChar (c : Char) (fuel : Nat) (rest : List Char) :
    readChars readEscape (fuel + 1) (writeChar c ++ rest) =
      (readChars readEscape fuel rest).map fun found => (c :: found.1, found.2) := by
  unfold writeChar
  split
  all_goals try rfl
  rename_i quote backslash _ _ _ _ _
  split
  · rename_i control
    have read := readUnicode_control control rest
    simp only [List.cons_append, List.nil_append, readChars, readEscape, read]
    rfl
  · rename_i shown
    have noQuote : c ≠ '"' := quote
    have noBackslash : c ≠ '\\' := backslash
    simp only [List.cons_append, List.nil_append, readChars, if_neg noQuote, if_neg noBackslash,
      if_neg shown]

theorem fuel_left (enough : n < fuel) : ∃ left, fuel = left + 1 :=
  Nat.exists_eq_succ_of_ne_zero (Nat.ne_of_gt (Nat.zero_lt_of_lt enough))

theorem readChars_write (text rest : List Char) (enough : text.length < fuel) :
    readChars readEscape fuel (text.flatMap writeChar ++ '"' :: rest) = .ok (text, rest) := by
  induction text generalizing fuel with
  | nil =>
    obtain ⟨fuel, rfl⟩ := fuel_left enough
    rfl
  | cons c text ih =>
    obtain ⟨fuel, rfl⟩ := fuel_left enough
    rw [List.flatMap_cons, List.append_assoc, readChars_writeChar,
      ih (Nat.lt_of_succ_lt_succ enough)]
    rfl

theorem writeChar_length (c : Char) : 0 < (writeChar c).length := by
  unfold writeChar
  split
  all_goals try exact Nat.zero_lt_succ _
  split <;> exact Nat.zero_lt_succ _

theorem length_le_flatMap {write : α → List Char} (some : ∀ x, 0 < (write x).length)
    (xs : List α) : xs.length ≤ (xs.flatMap write).length := by
  induction xs with
  | nil => exact Nat.le_refl 0
  | cons x xs ih =>
    have here := some x
    rw [List.flatMap_cons, List.length_append, List.length_cons]
    omega

theorem readQuoted_write (text rest : List Char) :
    readQuoted (text.flatMap writeChar ++ '"' :: rest) = .ok (text, rest) := by
  refine readChars_write text rest ?_
  have shorter := length_le_flatMap writeChar_length text
  rw [List.length_append, List.length_cons]
  omega

theorem writeText_append (text : String) (rest : List Char) :
    writeText text ++ rest = '"' :: (text.toList.flatMap writeChar ++ '"' :: rest) := by
  rw [writeText, List.append_assoc]
  rfl

def EndsNumber : List Char → Prop
  | [] => True
  | c :: _ => c.isDigit = false ∧ c ≠ '.' ∧ isExponentMark c = false

theorem le_ofDigitChars (digits : List Char) (value : Nat) :
    value ≤ Nat.ofDigitChars 10 digits value := by
  induction digits generalizing value with
  | nil => exact Nat.le_refl value
  | cons c digits ih =>
    rw [Nat.ofDigitChars_cons]
    exact Nat.le_trans (by omega) (ih _)

theorem takeDigits_append {digits rest : List Char} (count : Nat)
    (all : ∀ c ∈ digits, c.isDigit = true)
    (fits : Nat.ofDigitChars 10 digits value < wordLimit) (ends : EndsNumber rest) :
    takeDigits value count (digits ++ rest) =
      (Nat.ofDigitChars 10 digits value, count + digits.length, rest) := by
  induction digits generalizing value count with
  | nil =>
    cases rest with
    | nil => rfl
    | cons c rest =>
      rw [List.nil_append, takeDigits, ends.1]
      rfl
  | cons c digits ih =>
    obtain ⟨digit, others⟩ := List.forall_mem_cons.mp all
    have next : 10 * value + (c.toNat - '0'.toNat) = value * 10 + digitValue c := by
      rw [Nat.mul_comm, digitValue]
    rw [Nat.ofDigitChars_cons, next] at fits ⊢
    have below := Nat.lt_of_le_of_lt (le_ofDigitChars digits _) fits
    rw [List.cons_append, takeDigits, if_pos digit, if_pos below, ih (count + 1) others fits,
      List.length_cons]
    congr 2
    omega

theorem readTail_ends {rest : List Char} (significand : Nat) (ends : EndsNumber rest) :
    readTail false significand rest = .ok (.unsigned significand, rest) := by
  cases rest with
  | nil => rfl
  | cons c rest =>
    obtain ⟨digit, _, mark⟩ := ends
    simp [readTail, digit, mark]

theorem toDigits_lead (positive : 0 < n) :
    ∃ c digits, Nat.toDigits 10 n = c :: digits ∧ c ≠ '0' := by
  induction n using Nat.base_induction 10 (by decide) with
  | single d below =>
    have all : ∀ d < 10, 0 < d → Nat.digitChar d ≠ '0' := by decide
    exact ⟨_, _, Nat.toDigits_of_lt_base below, all d below positive⟩
  | digit m d below some ih =>
    obtain ⟨c, digits, front, lead⟩ := ih some
    rw [← Nat.toDigits_append_toDigits (by decide) some below, front]
    exact ⟨c, _, rfl, lead⟩

theorem readNumeral_write {rest : List Char} (fits : n < wordLimit) (ends : EndsNumber rest) :
    readNumeral false (writeNat n ++ rest) = .ok (.unsigned n, rest) := by
  by_cases zero : n = 0
  · subst zero
    have tail := readTail_ends 0 ends
    cases rest with
    | nil => exact tail
    | cons c rest =>
      change (if c.isDigit = true then _ else readTail false 0 (c :: rest)) = _
      rw [ends.1, tail]
      rfl
  · obtain ⟨c, digits, written, lead⟩ := toDigits_lead (Nat.pos_of_ne_zero zero)
    have all : ∀ d ∈ c :: digits, d.isDigit = true := by
      intro d inside
      rw [← written] at inside
      exact Nat.isDigit_of_mem_toDigits (by decide) (by decide) inside
    obtain ⟨digit, others⟩ := List.forall_mem_cons.mp all
    have value : Nat.ofDigitChars 10 digits (digitValue c) = n := by
      have whole := @Nat.ofDigitChars_ten_toDigits n
      rwa [written, Nat.ofDigitChars_cons, Nat.mul_zero, Nat.zero_add] at whole
    have taken := takeDigits_append 1 others (by rwa [value]) ends
    simp only [writeNat, written, List.cons_append, readNumeral, if_neg lead, if_pos digit, taken,
      value, readTail_ends n ends]

theorem writeNat_cons (n : Nat) : ∃ c digits, writeNat n = c :: digits ∧ c.isDigit = true := by
  obtain ⟨c, digits, written⟩ := List.exists_cons_of_ne_nil (l := writeNat n) Nat.toDigits_ne_nil
  have inside : c ∈ writeNat n := by
    rw [written]
    exact List.mem_cons_self
  exact ⟨c, digits, written, Nat.isDigit_of_mem_toDigits (by decide) (by decide) inside⟩

end UnitPipeline.Json
