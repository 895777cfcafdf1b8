import UnitPipeline.Proofs.Json.Lexeme

namespace UnitPipeline.Json

-- How the text of a value begins: a reader takes it for no space, for no end of a list
-- and, unless it may be null, for no null.
def Opens (null : Bool) : List Char → Prop
  | [] => False
  | c :: _ => isSpace c = false ∧ c ≠ ']' ∧ (null = false → c ≠ 'n')

theorem Opens.weaken {null : Bool} {text : List Char} (opens : Opens null text) :
    Opens true text := by
  cases text with
  | nil => exact opens
  | cons c rest => exact ⟨opens.1, opens.2.1, nofun⟩

theorem Opens.mark {null : Bool} {c : Char} {rest : List Char}
    (other : (isSpace c || c == ']' || c == 'n') = false) : Opens null (c :: rest) := by
  simp only [Bool.or_eq_false_iff, beq_eq_false_iff_ne] at other
  exact ⟨other.1.1, other.1.2, fun _ => other.2⟩

theorem writeText_opens (text : String) : Opens false (writeText text) := .mark rfl

theorem writeNat_opens (n : Nat) : Opens false (writeNat n) := by
  obtain ⟨c, digits, written, digit⟩ := writeNat_cons n
  rw [written]
  refine ⟨?_, ?_, fun _ => ?_⟩
  · cases space : isSpace c with
    | false => rfl
    | true =>
      simp only [isSpace, Bool.or_eq_true, decide_eq_true_eq] at space
      obtain ((rfl | rfl) | rfl) | rfl := space <;> cases digit
  · rintro rfl
    cases digit
  · rintro rfl
    cases digit

section
variable {α : Type} {null : Bool} {write : α → List Char} {item : Reader α}

theorem closing_cons (solid : isSpace c = false) (rest : List Char) :
    closing c (c :: rest) = .ok rest := by
  simp [closing, skipSpace_cons solid]

theorem nextItem_first {text : List Char} (opens : Opens null text) (rest : List Char) :
    nextItem true (text ++ rest) = .ok (true, text ++ rest) := by
  cases text with
  | nil => exact opens.elim
  | cons c text =>
    rw [List.cons_append, nextItem, skipSpace_cons opens.1]
    simp [opens.2.1]

theorem nextItem_comma {text : List Char} (opens : Opens null text) (rest : List Char) :
    nextItem false (',' :: (text ++ rest)) = .ok (true, text ++ rest) := by
  cases text with
  | nil => exact opens.elim
  | cons c text =>
    rw [List.cons_append, nextItem, skipSpace_cons rfl]
    simp [skipSpace_cons opens.1, opens.2.1]

theorem writeList_two (write : α → List Char) (x y : α) (xs : List α) :
    writeList write (x :: y :: xs) = write x ++ ',' :: writeList write (y :: xs) := rfl

theorem writeList_cons (write : α → List Char) (x : α) (xs : List α) :
    writeList write (x :: xs) = write x ++ xs.flatMap fun y => ',' :: write y := by
  induction xs generalizing x with
  | nil => rw [writeList, List.flatMap_nil, List.append_nil]
  | cons y xs ih => rw [writeList_two, ih, List.flatMap_cons, List.cons_append]

theorem Opens.length_pos {text : List Char} (opens : Opens null text) : 0 < text.length := by
  cases text with
  | nil => exact opens.elim
  | cons c text => exact Nat.zero_lt_succ _

theorem length_writeList (some : ∀ x, 0 < (write x).length) (xs : List α) :
    xs.length ≤ (writeList write xs).length := by
  induction xs with
  | nil => exact Nat.le_refl 0
  | cons x xs ih =>
    have here := some x
    cases xs with
    | nil => exact here
    | cons y xs =>
      simp only [writeList_two, List.length_append, List.length_cons] at ih ⊢
      omega

theorem separated_ends (write : α → List Char) (xs : List α) (ends : EndsNumber (c :: rest)) :
    EndsNumber ((xs.flatMap fun y => ',' :: write y) ++ c :: rest) := by
  cases xs with
  | nil => exact ends
  | cons y xs => exact ⟨rfl, by decide, rfl⟩

theorem bracket_ends (rest : List Char) : EndsNumber (']' :: rest) := ⟨rfl, by decide, rfl⟩

theorem readItems_later (opens : ∀ x, Opens null (write x))
    (reads : ∀ x rest, EndsNumber rest → item (write x ++ rest) = .ok (x, rest))
    (xs : List α) (rest : List Char) (enough : xs.length < fuel) :
    readItems item fuel false ((xs.flatMap fun y => ',' :: write y) ++ ']' :: rest) =
      .ok (xs, rest) := by
  induction xs generalizing fuel with
  | nil =>
    obtain ⟨fuel, rfl⟩ := fuel_left enough
    rfl
  | cons x xs ih =>
    obtain ⟨fuel, rfl⟩ := fuel_left enough
    have here := reads x _ (separated_ends write xs (bracket_ends rest))
    rw [List.flatMap_cons, List.cons_append, List.cons_append, List.append_assoc, readItems,
      nextItem_comma (opens x)]
    simp only [here, ih (Nat.lt_of_succ_lt_succ enough)]
    rfl

theorem readItems_write (opens : ∀ x, Opens null (write x))
    (reads : ∀ x rest, EndsNumber rest → item (write x ++ rest) = .ok (x, rest))
    (xs : List α) (rest : List Char) (enough : xs.length < fuel) :
    readItems item fuel true (writeList write xs ++ ']' :: rest) = .ok (xs, rest) := by
  obtain ⟨fuel, rfl⟩ := fuel_left enough
  cases xs with
  | nil => rfl
  | cons x xs =>
    have here := reads x _ (separated_ends write xs (bracket_ends rest))
    have later := readItems_later opens reads xs rest (Nat.lt_of_succ_lt_succ enough)
    rw [writeList_cons, List.append_assoc, readItems, nextItem_first (opens x)]
    simp only [here, later]
    rfl

end

-- A reader of members takes the written members, each under its name, and gets from one
-- state of what was read to another.
inductive Takes {σ : Type} (member : String → σ → Reader σ) :
    List (String × List Char) → σ → σ → Prop
  | none {read : σ} : Takes member [] read read
  | next {name : String} {value : List Char} {entries : List (String × List Char)}
      {read more last : σ} (one : ∀ rest, EndsNumber rest →
        member name read (':' :: (value ++ rest)) = .ok (more, rest))
      (others : Takes member entries more last) :
      Takes member ((name, value) :: entries) read last

def writeEntry (e : String × List Char) : List Char := writeMember e.1 e.2

theorem writeEntry_append (name : String) (value rest : List Char) :
    writeEntry (name, value) ++ rest =
      '"' :: (name.toList.flatMap writeChar ++ '"' :: ':' :: (value ++ rest)) := by
  rw [writeEntry, writeMember, List.append_assoc, writeText_append]
  rfl

theorem writeEntry_length (e : String × List Char) : 0 < (writeEntry e).length :=
  Nat.zero_lt_succ _

theorem writeList_map {α : Type} (write : α → List Char) (xs : List α) :
    writeList (fun text => text) (xs.map write) = writeList write xs := by
  cases xs with
  | nil => rfl
  | cons x xs => rw [List.map_cons, writeList_cons, writeList_cons, List.flatMap_map]

section
variable {σ : Type} {member : String → σ → Reader σ} {read more last : σ}

theorem brace_ends (rest : List Char) : EndsNumber ('\x7d' :: rest) := ⟨rfl, by decide, rfl⟩

theorem readMembers_one (found : nextKey first text = .ok (true, writeEntry (name, value) ++ rest))
    (one : member name read (':' :: (value ++ rest)) = .ok (more, rest)) :
    readMembers member (fuel + 1) first read text = readMembers member fuel false more rest := by
  rw [writeEntry_append] at found
  simp only [readMembers, found, List.tail_cons, readQuoted_write, String.ofList_toList, one]

theorem readMembers_later (takes : Takes member entries read last) (rest : List Char)
    (enough : entries.length < fuel) :
    readMembers member fuel false read
        ((entries.flatMap fun e => ',' :: writeEntry e) ++ '\x7d' :: rest) =
      .ok (last, '\x7d' :: rest) := by
  induction takes generalizing fuel with
  | none =>
    obtain ⟨fuel, rfl⟩ := fuel_left enough
    rfl
  | @next _ _ entries _ _ _ one others ih =>
    obtain ⟨fuel, rfl⟩ := fuel_left enough
    have here := one _ (separated_ends writeEntry entries (brace_ends rest))
    rw [List.flatMap_cons, List.cons_append, List.cons_append, List.append_assoc,
      readMembers_one rfl here, ih (Nat.lt_of_succ_lt_succ enough)]

theorem readMembers_write (takes : Takes member entries read last) (rest : List Char)
    (enough : entries.length < fuel) :
    readMembers member fuel true read (writeList writeEntry entries ++ '\x7d' :: rest) =
      .ok (last, '\x7d' :: rest) := by
  obtain ⟨fuel, rfl⟩ := fuel_left enough
  cases takes with
  | none => rfl
  | @next _ _ entries _ _ _ one others =>
    have here := one _ (separated_ends writeEntry entries (brace_ends rest))
    have later := readMembers_later others rest (Nat.lt_of_succ_lt_succ enough)
    rw [writeList_cons, List.append_assoc, readMembers_one rfl here, later]

end

end UnitPipeline.Json
