import UnitPipeline.Proofs.Json.Reading

namespace UnitPipeline.Json

theorem quotedText_append (pieces : List Piece) (rest : List Char) :
    quotedText pieces ++ rest = '"' :: (pieces.flatMap Piece.text ++ '"' :: rest) := by
  rw [quotedText, List.cons_append, List.append_assoc]
  rfl

theorem nextKey_brace (first : Bool) (gap : Gap) (rest : List Char) :
    nextKey first (gap.text ++ '\x7d' :: rest) = .ok (false, '\x7d' :: rest) := by
  rw [nextKey, skipSpace_gap]
  rfl

theorem nextKey_quoted (first : Bool) (gap before : Gap) (key : List Piece) (rest : List Char) :
    nextKey first (gap.text ++ (comma first ++ (before.text ++ (quotedText key ++ rest)))) =
      .ok (true, '"' :: (key.flatMap Piece.text ++ '"' :: rest)) := by
  rw [nextKey, skipSpace_gap, quotedText_append]
  cases first with
  | true =>
    rw [comma, if_pos rfl, List.nil_append, skipSpace_gap]
    rfl
  | false =>
    have found := skipSpace_gap before ('"' :: (key.flatMap Piece.text ++ '"' :: rest))
    rw [skipSpace_cons rfl] at found
    rw [comma, if_neg Bool.false_ne_true, List.cons_append, List.nil_append, skipSpace_cons rfl]
    simp only [found]
    rfl

namespace Members

theorem text_ends (members : Members) (rest : List Char) :
    EndsNumber (members.text false ++ '\x7d' :: rest) := by
  cases members with
  | none => exact brace_ends rest
  | next before key behind lead value after others => exact ⟨rfl, by decide, rfl⟩

theorem entries_length (first : Bool) : (members : Members) →
    members.entries.length ≤ (members.text first).length
  | .none => Nat.le_refl 0
  | .next before key behind lead value after others => by
    have later := others.entries_length false
    simp only [entries, text, quotedText, List.length_cons, List.length_append]
    omega

end Members

section
variable {σ : Type} {member : String → σ → Reader σ} {take : String → Written → σ → Option σ}

def takeUp (take : String → Written → σ → Option σ) (read : σ) (e : Option String × Written) :
    Option σ :=
  e.1.bind fun key => take key e.2 read

theorem readMembers_next (found : nextKey first text = .ok (true, '"' :: quoted)) (read : σ) :
    (readMembers member (fuel + 1) first read text).toOption =
      (readQuoted quoted).toOption.bind fun key =>
        (member (String.ofList key.1) read key.2).toOption.bind fun more =>
          (readMembers member fuel false more.1 more.2).toOption := by
  simp only [readMembers, found, List.tail_cons]
  cases readQuoted quoted with
  | error cause => rfl
  | ok key =>
    dsimp only [Except.toOption, Option.bind_some]
    cases member (String.ofList key.1) read key.2 <;> rfl

-- Members are taken up one after the other, each with what was read before.
theorem readMembers_written
    (one : ∀ key value read (behind lead : Gap) rest, EndsNumber rest →
      (member key read (behind.text ++ ':' :: (lead.text ++ (value.text ++ rest)))).toOption =
        (take key value read).map fun more => (more, rest))
    (first : Bool) (gap : Gap) (read : σ) (rest : List Char) : (members : Members) →
    members.entries.length < fuel →
    (readMembers member fuel first read
        (gap.text ++ (members.text first ++ '\x7d' :: rest))).toOption =
      (members.entries.foldlM (takeUp take) read).map fun last => (last, '\x7d' :: rest)
  | .none, enough => by
    obtain ⟨fuel, rfl⟩ := fuel_left enough
    have found := nextKey_brace first gap rest
    simp only [Members.text, List.nil_append, readMembers, found]
    rfl
  | .next before key behind lead value after others, enough => by
    obtain ⟨fuel, rfl⟩ := fuel_left enough
    have later := fun read => readMembers_written one false after read rest others
      (Nat.lt_of_succ_lt_succ enough)
    have here := fun name => one name value read behind lead _
      (gap_ends after (others.text_ends rest))
    simp only [Members.text, List.append_assoc, List.cons_append]
    rw [readMembers_next (nextKey_quoted first gap before key _), readQuoted_pieces]
    simp only [Members.entries, List.foldlM_cons, takeUp]
    cases spelled key with
    | none => rfl
    | some chars =>
      simp only [Option.map_some, Option.bind_some, here]
      cases take (String.ofList chars) value read with
      | none => rfl
      | some more => exact later more

end

section
variable {name : String} {shape : Shape} {others : Fields} {closed : Option (List String)}
  {behind : Gap} {text rest : List Char}

theorem readColon_gap (behind : Gap) (text : List Char) :
    readColon (behind.text ++ ':' :: text) = .ok text := by
  rw [readColon, skipSpace_gap]
  rfl

theorem readMember_here {value : Option shape.Value}
    (read : (shape.read text).toOption = value.map fun x => (x, rest))
    (slots : (Fields.cons name shape others).Slots) :
    ((Fields.cons name shape others).readMember closed name slots
        (behind.text ++ ':' :: text)).toOption =
      if slots.1.isSome then none else value.map fun x => ((some x, slots.2), rest) := by
  simp only [Fields.readMember, if_true, readColon_gap]
  split
  · rfl
  · rw [toOption_map, read, Option.map_map]
    rfl

theorem readMember_there (other : key ≠ name) (slots : (Fields.cons name shape others).Slots) :
    ((Fields.cons name shape others).readMember closed key slots text).toOption =
      (others.readMember closed key slots.2 text).toOption.map
        fun found => ((slots.1, found.1), found.2) := by
  simp only [Fields.readMember, if_neg other]
  exact toOption_map _ _

end

theorem readOverlay_written {fields : Fields} {member : String → fields.Slots → Reader fields.Slots}
    {some : Reader fields.Slots} {body rest : List Char} {slots : Option fields.Slots}
    (read : (readMembers member (body.length + 1) true fields.unread body).toOption =
      slots.map fun last => (last, '\x7d' :: rest)) (title : String) (gap : Gap) :
    (readOverlay title fields some member (gap.text ++ '\x7b' :: body)).toOption =
      slots.map fun last => (last, rest) := by
  rw [readOverlay, skipSpace_gap, skipSpace_cons rfl]
  cases slots with
  | none =>
    obtain ⟨cause, failed⟩ := toOption_none.mp read
    simp only [failed]
    rfl
  | some last =>
    simp only [toOption_some.mp read]
    rfl

theorem readWhole_written {shape : Shape} {text : List Char} {gap : Gap}
    {value : Option shape.Value}
    (read : (shape.read text).toOption = value.map fun x => (x, gap.text)) :
    (shape.readWhole text).toOption = value := by
  rw [Shape.readWhole]
  cases value with
  | none =>
    obtain ⟨cause, failed⟩ := toOption_none.mp read
    rw [failed]
    rfl
  | some x =>
    rw [toOption_some.mp read]
    simp only [skipSpace_all]
    rfl

end UnitPipeline.Json
