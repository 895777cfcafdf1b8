import UnitPipeline.Proofs.Json.Sequence

namespace UnitPipeline.Json

def Shape.isOption : Shape → Bool
  | .option _ => true
  | _ => false

-- A form whose texts tell all its values apart: no name occurs twice among the fields
-- of a record or the variants of a choice, and what an option holds is never null itself.
mutual

def Shape.legible : Shape → Bool
  | .flag | .word _ | .text => true
  | .list item => item.legible
  | .option item => !item.isOption && item.legible
  | .record _ fields | .overlay _ fields => decide fields.names.Nodup && fields.legible
  | .choice variants => decide variants.names.Nodup && variants.legible

def Fields.legible : Fields → Bool
  | .nil => true
  | .cons _ shape rest => shape.legible && rest.legible

def Variants.legible : Variants → Bool
  | .nil => true
  | .plain _ rest => rest.legible
  | .fielded _ _ fields rest => (decide fields.names.Nodup && fields.legible) && rest.legible

end

theorem Variants.write_opens : (variants : Variants) → (v : variants.Value) →
    Opens false (variants.write v)
  | .nil, v => nomatch v
  | .plain name rest, v => by
    cases v with
    | inl alone => exact writeText_opens name
    | inr later => exact rest.write_opens later
  | .fielded name title fields rest, v => by
    cases v with
    | inl values => exact .mark rfl
    | inr later => exact rest.write_opens later

theorem Shape.write_opens (shape : Shape) (v : shape.Value) :
    Opens shape.isOption (shape.write v) := by
  cases shape with
  | flag =>
    cases v with
    | false => exact .mark rfl
    | true => exact .mark rfl
  | word w => exact writeNat_opens (w.number v)
  | text => exact writeText_opens v
  | list item => exact .mark rfl
  | option item =>
    cases v with
    | none => exact ⟨rfl, by decide, nofun⟩
    | some v => exact (item.write_opens v).weaken
  | record title fields => exact .mark rfl
  | overlay title fields => exact .mark rfl
  | choice variants => exact variants.write_opens v

theorem readList_write {shape : Shape} (opens : ∀ x, Opens null (shape.write x))
    (reads : ∀ x rest, EndsNumber rest → shape.read (shape.write x ++ rest) = .ok (x, rest))
    (xs : List shape.Value) (rest : List Char) :
    (Shape.list shape).read ((Shape.list shape).write xs ++ rest) = .ok (xs, rest) := by
  have shorter := length_writeList (fun x => (opens x).length_pos) xs
  have text : (Shape.list shape).write xs ++ rest =
      '[' :: (writeList shape.write xs ++ ']' :: rest) := by
    rw [Shape.write, List.cons_append, List.cons_append, List.append_assoc]
    rfl
  rw [text]
  simp only [Shape.read, skipSpace_cons (c := '[') rfl]
  refine readItems_write opens reads xs rest ?_
  rw [List.length_append]
  omega

namespace Fields

def entries : (fields : Fields) → fields.Slots → List (String × List Char)
  | .nil, _ => []
  | .cons name shape rest, slots =>
    match slots.1 with
    | some x => (name, shape.write x) :: rest.entries slots.2
    | none => rest.entries slots.2

def filled : (fields : Fields) → fields.Value → fields.Slots
  | .nil, _ => ()
  | .cons _ _ rest, v => (some v.1, rest.filled v.2)

theorem writeSlots_eq : (fields : Fields) → (slots : fields.Slots) →
    fields.writeSlots slots = (fields.entries slots).map writeEntry
  | .nil, _ => rfl
  | .cons name shape rest, ⟨slot, slots⟩ => by
    have others := rest.writeSlots_eq slots
    cases slot with
    | none => exact others
    | some x => exact congrArg (writeEntry (name, shape.write x) :: ·) others

theorem write_eq : (fields : Fields) → (v : fields.Value) →
    fields.write v = fields.writeSlots (fields.filled v)
  | .nil, _ => rfl
  | .cons name shape rest, v =>
    congrArg (writeMember name (shape.write v.1) :: ·) (rest.write_eq v.2)

theorem complete_filled : (fields : Fields) → (v : fields.Value) →
    fields.complete (fields.filled v) = .ok v
  | .nil, _ => rfl
  | .cons name shape rest, v => by
    have others := rest.complete_filled v.2
    simp only [complete, filled, Option.some_or, others]
    rfl

theorem mem_names : (fields : Fields) → (slots : fields.Slots) →
    ∀ e ∈ fields.entries slots, e.1 ∈ fields.names
  | .nil, _, _, inside => nomatch inside
  | .cons name shape rest, ⟨slot, slots⟩, e, inside => by
    cases slot with
    | none => exact List.mem_cons_of_mem name (rest.mem_names slots e inside)
    | some x =>
      rcases List.mem_cons.mp inside with rfl | later
      · exact List.mem_cons_self
      · exact List.mem_cons_of_mem name (rest.mem_names slots e later)

theorem takes_later {closed : Option (List String)} {rest : Fields} {read last : rest.Slots}
    (takes : Takes (rest.readMember closed) members read last) (other : ∀ e ∈ members, e.1 ≠ name)
    (first : Option shape.Value) :
    Takes ((cons name shape rest).readMember closed) members (first, read) (first, last) := by
  induction takes with
  | none => exact .none
  | next one _ ih =>
    obtain ⟨here, others⟩ := List.forall_mem_cons.mp other
    refine .next (fun after ends => ?_) (ih others)
    simp only [readMember, if_neg here, one after ends]
    rfl

theorem braced_append (fields : Fields) (slots : fields.Slots) (rest : List Char) :
    braced (writeList (fun m => m) (fields.writeSlots slots)) ++ rest =
      '\x7b' :: (writeList writeEntry (fields.entries slots) ++ '\x7d' :: rest) := by
  rw [writeSlots_eq, writeList_map, braced, List.cons_append, List.cons_append, List.append_assoc]
  rfl

theorem readMembers_entries {fields : Fields} {slots : fields.Slots}
    {member : String → fields.Slots → Reader fields.Slots}
    (takes : Takes member (fields.entries slots) fields.unread slots) (rest : List Char) :
    let body := writeList writeEntry (fields.entries slots) ++ '\x7d' :: rest
    readMembers member (body.length + 1) true fields.unread body = .ok (slots, '\x7d' :: rest) := by
  refine readMembers_write takes rest ?_
  have shorter := length_writeList writeEntry_length (fields.entries slots)
  rw [List.length_append]
  omega

end Fields

theorem readRecord_write {fields : Fields} {v : fields.Value} (all : Reader fields.Value)
    {member : String → fields.Slots → Reader fields.Slots}
    (takes : Takes member (fields.entries (fields.filled v)) fields.unread (fields.filled v))
    (title : String) (rest : List Char) :
    readRecord title fields all member (braced (writeList (fun m => m) (fields.write v)) ++ rest) =
      .ok (v, rest) := by
  have found := Fields.readMembers_entries takes rest
  rw [fields.write_eq, fields.braced_append, readRecord, skipSpace_cons rfl]
  simp only [found, fields.complete_filled]
  rfl

theorem readOverlay_write {fields : Fields} {slots : fields.Slots} {some : Reader fields.Slots}
    {member : String → fields.Slots → Reader fields.Slots}
    (takes : Takes member (fields.entries slots) fields.unread slots)
    (title : String) (rest : List Char) :
    readOverlay title fields some member
      (braced (writeList (fun m => m) (fields.writeSlots slots)) ++ rest) = .ok (slots, rest) := by
  have found := Fields.readMembers_entries takes rest
  rw [fields.braced_append, readOverlay, skipSpace_cons rfl]
  simp only [found]
  rfl

namespace Width

theorem number_lt (w : Width) (n : w.Word) : w.number n < w.size := by
  cases w with
  | byte => exact UInt8.toNat_lt n
  | word32 => exact UInt32.toNat_lt n
  | word64 => exact UInt64.toNat_lt n

theorem ofNumber_number (w : Width) (n : w.Word) : w.ofNumber (w.number n) = n := by
  cases w with
  | byte => exact UInt8.ofNat_toNat
  | word32 => exact UInt32.ofNat_toNat
  | word64 => exact UInt64.ofNat_toNat

theorem size_le (w : Width) : w.size ≤ wordLimit := by cases w <;> decide

end Width

theorem readWidth_digits (w : Width) (n : Nat) (rest : List Char) :
    readWidth w (writeNat n ++ rest) = (readNumeral false (writeNat n ++ rest)).bind fun found =>
      (w.accept found.1).map fun value => (value, found.2) := by
  have opens := writeNat_opens n
  obtain ⟨c, digits, written, digit⟩ := writeNat_cons n
  have noMinus : c ≠ '-' := by
    rintro rfl
    cases digit
  rw [written] at opens ⊢
  rw [List.cons_append, readWidth, skipSpace_cons opens.1]
  simp only [if_neg noMinus, if_pos digit]
  cases readNumeral false (c :: (digits ++ rest)) <;> rfl

theorem readWidth_write (w : Width) (n : w.Word) (ends : EndsNumber rest) :
    readWidth w (writeNat (w.number n) ++ rest) = .ok (n, rest) := by
  have fits := w.number_lt n
  have found := readNumeral_write (Nat.lt_of_lt_of_le fits w.size_le) ends
  have accepted : w.accept (.unsigned (w.number n)) = .ok n := by
    rw [Width.accept, if_pos fits, w.ofNumber_number]
  rw [readWidth_digits, found, Except.bind, accepted]
  rfl

-- How the text of a choice names the variant: it is the name alone, or an object with
-- the name as its only key.
inductive Variants.Told (variants : Variants) (v : variants.Value) : Prop
  | alone (known : name ∈ variants.names) (written : variants.write v = writeText name)
      (read : ∀ all, variants.readPlain name all = .ok v)
  | tagged (value : List Char) (known : name ∈ variants.names)
      (written : variants.write v = braced (writeEntry (name, value)))
      (read : ∀ all rest, EndsNumber rest →
        variants.readTagged name all (':' :: (value ++ rest)) = .ok (v, rest))

theorem Variants.Told.later {rest : Variants} {v : rest.Value} (told : rest.Told v)
    (variants : Variants) (embed : rest.Value → variants.Value)
    (names : variants.names = own :: rest.names)
    (written : variants.write (embed v) = rest.write v)
    (plain : ∀ name ∈ rest.names, ∀ all,
      variants.readPlain name all = (rest.readPlain name all).map embed)
    (tagged : ∀ name ∈ rest.names, ∀ all text, variants.readTagged name all text =
      (rest.readTagged name all text).map fun found => (embed found.1, found.2)) :
    variants.Told (embed v) := by
  cases told with
  | alone known wrote read =>
    refine .alone (names ▸ List.mem_cons_of_mem own known) (written.trans wrote) fun all => ?_
    rw [plain _ known, read]
    rfl
  | tagged value known wrote read =>
    refine .tagged value (names ▸ List.mem_cons_of_mem own known) (written.trans wrote) ?_
    intro all after ends
    rw [tagged _ known, read all after ends]
    rfl

theorem braced_writeEntry (name : String) (value rest : List Char) :
    braced (writeEntry (name, value)) ++ rest =
      '\x7b' :: '"' :: (name.toList.flatMap writeChar ++ '"' :: ':' :: (value ++ '\x7d' :: rest)) := by
  rw [braced, List.cons_append, List.cons_append, List.append_assoc, writeEntry_append]
  rfl

theorem readChoice_write {variants : Variants} {v : variants.Value} (told : variants.Told v)
    (rest : List Char) : (Shape.choice variants).read (variants.write v ++ rest) = .ok (v, rest) := by
  cases told with
  | alone known written read =>
    rw [written, writeText_append]
    simp only [Shape.read, skipSpace_cons (c := '"') rfl, readQuoted_write, String.ofList_toList,
      read]
    rfl
  | tagged value known written read =>
    have found := read variants.names _ (brace_ends rest)
    have closed := closing_cons (c := '\x7d') rfl rest
    rw [written, braced_writeEntry]
    simp only [Shape.read, skipSpace_cons (c := '\x7b') rfl, readName, skipSpace_cons (c := '"') rfl,
      readQuoted_write, Except.map, String.ofList_toList, if_true, found, closed]

theorem readText_write (expected text : String) (rest : List Char) :
    readText expected (writeText text ++ rest) = .ok (text, rest) := by
  rw [writeText_append, readText, skipSpace_cons rfl]
  simp only [readQuoted_write, Except.map, String.ofList_toList]

theorem readOption_write {shape : Shape} {x : shape.Value} {rest : List Char}
    (opens : Opens false (shape.write x))
    (read : shape.read (shape.write x ++ rest) = .ok (x, rest)) :
    (Shape.option shape).read (shape.write x ++ rest) = .ok (some x, rest) := by
  cases text : shape.write x with
  | nil => exact (text ▸ opens).elim
  | cons c more =>
    rw [text] at opens read
    obtain ⟨solid, _, noNull⟩ := opens
    have other := noNull rfl
    rw [List.cons_append] at read ⊢
    simp only [Shape.read, skipSpace_cons solid]
    split
    · rename_i begins
      exact absurd (List.cons.inj begins).1 other
    · rw [read]
      rfl

theorem readColon_cons (rest : List Char) : readColon (':' :: rest) = .ok rest := rfl

mutual

-- What is written of a value is read as this value, and what follows is left. The
-- induction is on the form.
theorem Shape.read_write : (shape : Shape) → shape.legible = true → (v : shape.Value) →
    (rest : List Char) → EndsNumber rest → shape.read (shape.write v ++ rest) = .ok (v, rest)
  | .flag, _, v, rest, _ => by cases v <;> rfl
  | .word w, _, n, rest, ends => readWidth_write w n ends
  | .text, _, text, rest, _ => readText_write "a string" text rest
  | .list item, legible, xs, rest, _ =>
    readList_write item.write_opens (item.read_write legible) xs rest
  | .option item, legible, v, rest, ends => by
    obtain ⟨plain, legible⟩ := Bool.and_eq_true_iff.mp legible
    cases v with
    | none => rfl
    | some x =>
      have opens := item.write_opens x
      rw [(Bool.not_eq_true' _).mp plain] at opens
      exact readOption_write opens (item.read_write legible x rest ends)
  | .record title fields, legible, v, rest, _ => by
    obtain ⟨distinct, legible⟩ := Bool.and_eq_true_iff.mp legible
    have takes := fields.takes_entries none (of_decide_eq_true distinct) legible (fields.filled v)
    exact readRecord_write _ takes title rest
  | .overlay title fields, legible, slots, rest, _ => by
    obtain ⟨distinct, legible⟩ := Bool.and_eq_true_iff.mp legible
    have takes := fields.takes_entries fields.names (of_decide_eq_true distinct) legible slots
    exact readOverlay_write takes title rest
  | .choice variants, legible, v, rest, _ => by
    obtain ⟨distinct, legible⟩ := Bool.and_eq_true_iff.mp legible
    exact readChoice_write (variants.told (of_decide_eq_true distinct) legible v) rest

theorem Fields.takes_entries (closed : Option (List String)) : (fields : Fields) →
    fields.names.Nodup → fields.legible = true → (slots : fields.Slots) →
    Takes (fields.readMember closed) (fields.entries slots) fields.unread slots
  | .nil, _, _, _ => .none
  | .cons name shape rest, distinct, legible, ⟨slot, slots⟩ => by
    obtain ⟨new, others⟩ := List.nodup_cons.mp distinct
    obtain ⟨first, legible⟩ := Bool.and_eq_true_iff.mp legible
    have takes := rest.takes_entries closed others legible slots
    have other : ∀ e ∈ rest.entries slots, e.1 ≠ name :=
      fun e inside => ne_of_mem_of_not_mem (rest.mem_names slots e inside) new
    cases slot with
    | none => exact Fields.takes_later takes other none
    | some x =>
      refine .next (fun after ends => ?_) (Fields.takes_later takes other (some x))
      have read := shape.read_write first x after ends
      simp only [Fields.readMember, Fields.unread, if_true, readColon_cons, read]
      rfl

theorem Variants.told : (variants : Variants) → variants.names.Nodup → variants.legible = true →
    (v : variants.Value) → variants.Told v
  | .nil, _, _, v => nomatch v
  | .plain name rest, distinct, legible, v => by
    obtain ⟨new, others⟩ := List.nodup_cons.mp distinct
    cases v with
    | inl alone =>
      refine .alone List.mem_cons_self rfl fun all => ?_
      rw [Variants.readPlain, if_pos rfl]
    | inr v =>
      have told := rest.told others legible v
      refine told.later (.plain name rest) Sum.inr rfl rfl ?_ ?_
      · intro other known all
        rw [Variants.readPlain, if_neg (ne_of_mem_of_not_mem known new)]
      · intro other known all text
        simp only [Variants.readTagged, if_neg (ne_of_mem_of_not_mem known new)]
  | .fielded name title fields rest, distinct, legible, v => by
    obtain ⟨new, others⟩ := List.nodup_cons.mp distinct
    obtain ⟨here, legible⟩ := Bool.and_eq_true_iff.mp legible
    cases v with
    | inl values =>
      obtain ⟨apart, here⟩ := Bool.and_eq_true_iff.mp here
      have takes := fields.takes_entries none (of_decide_eq_true apart) here (fields.filled values)
      refine .tagged (braced (writeList (fun m => m) (fields.write values)))
        List.mem_cons_self rfl fun all after ends => ?_
      have read := readRecord_write (fields.readAll (withCount title fields.count) 0) takes title after
      simp only [Variants.readTagged, if_true, readColon_cons, read]
      rfl
    | inr v =>
      have told := rest.told others legible v
      refine told.later (.fielded name title fields rest) Sum.inr rfl rfl ?_ ?_
      · intro other known all
        rw [Variants.readPlain, if_neg (ne_of_mem_of_not_mem known new)]
      · intro other known all text
        simp only [Variants.readTagged, if_neg (ne_of_mem_of_not_mem known new)]

end

end UnitPipeline.Json
