import UnitPipeline.Json.Shape

namespace UnitPipeline.Json

-- The complaint about a value that is of another kind than the one expected.
-- The value is looked at as far as its kind, a text or a number to its end, so
-- a text that is not even well formed there is refused as such.
def mismatch (expected : String) (text : List Char) : JsonError :=
  let complain (found : Found) : JsonError := .data (.invalidType found expected)
  let word (letters : String) (found : Found) (rest : List Char) : JsonError :=
    match readWord letters.toList rest with
    | .error e => e
    | .ok _ => complain found
  let numeral (result : Except JsonError (Numeral × List Char)) : JsonError :=
    match result with
    | .error e => e
    | .ok (n, _) => complain n.found
  match text with
  | [] => .endedEarly
  | c :: rest =>
    if c = 'n' then word "ull" .null rest
    else if c = 't' then word "rue" (.flag true) rest
    else if c = 'f' then word "alse" (.flag false) rest
    else if c = '-' then numeral (readNumeral true rest)
    else if c.isDigit then numeral (readNumeral false (c :: rest))
    else if c = '"' then
      match readQuoted rest with
      | .error e => e
      | .ok (value, _) => complain (.text (String.ofList value))
    else if c = '[' then complain .sequence
    else if c = '\x7b' then complain .map
    else .malformed

def readFlag : Reader Bool := fun text =>
  match skipSpace text with
  | 't' :: rest => (readWord "rue".toList rest).map fun more => (true, more)
  | 'f' :: rest => (readWord "alse".toList rest).map fun more => (false, more)
  | other => .error (mismatch "a boolean" other)

def readNull (expected : String) : Reader Unit := fun text =>
  match skipSpace text with
  | 'n' :: rest => (readWord "ull".toList rest).map fun more => ((), more)
  | other => .error (mismatch expected other)

def readText (expected : String) : Reader String := fun text =>
  match skipSpace text with
  | '"' :: rest => (readQuoted rest).map fun found => (String.ofList found.1, found.2)
  | other => .error (mismatch expected other)

-- The name of a member or of a variant. Whatever is no text is malformed there, a number
-- or null as well.
def readName : Reader String := fun text =>
  match skipSpace text with
  | [] => .error .endedEarly
  | c :: rest =>
    if c = '"' then (readQuoted rest).map fun found => (String.ofList found.1, found.2)
    else .error .malformed

def Width.accept (w : Width) (n : Numeral) : Except JsonError w.Word :=
  match n with
  | .unsigned value =>
    if value < w.size then .ok (w.ofNumber value)
    else .error (.data (.invalidValue n.found w.name))
  | .negative _ => .error (.data (.invalidValue n.found w.name))
  | .real .. => .error (.data (.invalidType n.found w.name))

def readWidth (w : Width) : Reader w.Word := fun text =>
  match skipSpace text with
  | [] => .error .endedEarly
  | c :: rest =>
    let found :=
      if c = '-' then (readNumeral true rest).map some
      else if c.isDigit then (readNumeral false (c :: rest)).map some
      else .ok none
    match found with
    | .error e => .error e
    | .ok none => .error (mismatch w.name (c :: rest))
    | .ok (some (n, more)) => (w.accept n).map fun value => (value, more)

def nextItem (first : Bool) (text : List Char) : Except JsonError (Bool × List Char) :=
  match skipSpace text with
  | [] => .error .endedEarly
  | c :: rest =>
    if c = ']' then .ok (false, c :: rest)
    else if first then .ok (true, c :: rest)
    else if c = ',' then
      match skipSpace rest with
      | [] => .error .endedEarly
      | d :: more => if d = ']' then .error .malformed else .ok (true, d :: more)
    else .error .malformed

def nextKey (first : Bool) (text : List Char) : Except JsonError (Bool × List Char) :=
  match skipSpace text with
  | [] => .error .endedEarly
  | c :: rest =>
    if c = '\x7d' then .ok (false, c :: rest)
    else if first then if c = '"' then .ok (true, c :: rest) else .error .malformed
    else if c = ',' then
      match skipSpace rest with
      | [] => .error .endedEarly
      | d :: more => if d = '"' then .ok (true, d :: more) else .error .malformed
    else .error .malformed

def readColon (text : List Char) : Except JsonError (List Char) :=
  match skipSpace text with
  | [] => .error .endedEarly
  | c :: rest => if c = ':' then .ok rest else .error .malformed

def closing (mark : Char) (text : List Char) : Except JsonError (List Char) :=
  match skipSpace text with
  | [] => .error .endedEarly
  | c :: rest => if c = mark then .ok rest else .error .malformed

-- The items of a list whose opening bracket has been seen. `fuel` bounds the
-- items, and the length of the text is enough.
def readItems (item : Reader α) : Nat → Bool → Reader (List α)
  | 0, _, _ => .error .endedEarly
  | fuel + 1, first, text =>
    match nextItem first text with
    | .error e => .error e
    | .ok (false, rest) => (closing ']' rest).map fun more => ([], more)
    | .ok (true, rest) =>
      match item rest with
      | .error e => .error e
      | .ok (x, more) => (readItems item fuel false more).map fun found => (x :: found.1, found.2)

def readMembers (member : String → α → Reader α) : Nat → Bool → α → Reader α
  | 0, _, _, _ => .error .endedEarly
  | fuel + 1, first, read, text =>
    match nextKey first text with
    | .error e => .error e
    | .ok (false, rest) => .ok (read, rest)
    | .ok (true, rest) =>
      match readQuoted rest.tail with
      | .error e => .error e
      | .ok (key, more) =>
        match member (String.ofList key) read more with
        | .error e => .error e
        | .ok (read, later) => readMembers member fuel false read later

def withCount (title : String) (count : Nat) : String :=
  title ++ " with " ++ toString count ++ (if count = 1 then " element" else " elements")

def Fields.complete : (fields : Fields) → fields.Slots → Except JsonError fields.Value
  | .nil, _ => .ok ()
  | .cons name shape rest, slots =>
    match slots.1.or shape.absent? with
    | none => .error (.data (.missingField name))
    | some value =>
      match rest.complete slots.2 with
      | .error e => .error e
      | .ok values => .ok (value, values)

def readRecord (title : String) (fields : Fields) (all : Reader fields.Value)
    (member : String → fields.Slots → Reader fields.Slots) : Reader fields.Value := fun text =>
  match skipSpace text with
  | '[' :: rest =>
    match all rest with
    | .error e => .error e
    | .ok (values, more) => (closing ']' more).map fun after => (values, after)
  | '\x7b' :: rest =>
    match readMembers member (rest.length + 1) true fields.unread rest with
    | .error e => .error e
    | .ok (slots, more) => (fields.complete slots).map fun values => (values, more.tail)
  | other => .error (mismatch title other)

def readOverlay (title : String) (fields : Fields) (some : Reader fields.Slots)
    (member : String → fields.Slots → Reader fields.Slots) : Reader fields.Slots := fun text =>
  match skipSpace text with
  | '[' :: rest =>
    match some rest with
    | .error e => .error e
    | .ok (slots, more) => (closing ']' more).map fun after => (slots, after)
  | '\x7b' :: rest =>
    match readMembers member (rest.length + 1) true fields.unread rest with
    | .error e => .error e
    | .ok (slots, more) => .ok (slots, more.tail)
  | other => .error (mismatch title other)

def Variants.readPlain (name : String) (known : List String) :
    (variants : Variants) → Except JsonError variants.Value
  | .nil => .error (.data (.unknownVariant name known))
  | .plain own rest =>
    if name = own then .ok (.inl ()) else (rest.readPlain name known).map .inr
  | .fielded own _ _ rest =>
    if name = own then .error (.data (.invalidType .unitVariant "struct variant"))
    else (rest.readPlain name known).map .inr

mutual

def Shape.read : (shape : Shape) → Reader shape.Value
  | .flag => readFlag
  | .word w => readWidth w
  | .text => readText "a string"
  | .list item => fun text =>
    match skipSpace text with
    | '[' :: rest => readItems item.read (rest.length + 1) true rest
    | other => .error (mismatch "a sequence" other)
  | .option item => fun text =>
    match skipSpace text with
    | 'n' :: rest => (readWord "ull".toList rest).map fun more => (none, more)
    | other => (item.read other).map fun found => (some found.1, found.2)
  | .record title fields =>
    readRecord title fields (fields.readAll (withCount title fields.count) 0)
      (fields.readMember none)
  | .overlay title fields =>
    readOverlay title fields (fields.readSome true) (fields.readMember (some fields.names))
  | .choice variants => fun text =>
    match skipSpace text with
    | [] => .error .endedEarly
    | '\x7b' :: rest =>
      match readName rest with
      | .error e => .error e
      | .ok (name, more) =>
        match variants.readTagged name variants.names more with
        | .error e => .error e
        | .ok (value, after) => (closing '\x7d' after).map fun last => (value, last)
    | '"' :: rest =>
      match readQuoted rest with
      | .error e => .error e
      | .ok (name, more) =>
        (variants.readPlain (String.ofList name) variants.names).map fun value => (value, more)
    | _ => .error .malformed

-- The field of a key. A key that came before is refused before its value is
-- read. What is no field is skipped, or refused if the names are closed.
def Fields.readMember (closed : Option (List String)) :
    (fields : Fields) → String → fields.Slots → Reader fields.Slots
  | .nil, key, slots => fun text =>
    match closed with
    | some known => .error (.data (.unknownField key known))
    | none =>
      match readColon text with
      | .error e => .error e
      | .ok rest => (skipValue rest).map fun more => (slots, more)
  | .cons name shape rest, key, slots => fun text =>
    if key = name then
      if slots.1.isSome then .error (.data (.duplicateField name))
      else
        match readColon text with
        | .error e => .error e
        | .ok more => (shape.read more).map fun found => ((some found.1, slots.2), found.2)
    else (rest.readMember closed key slots.2 text).map fun found => ((slots.1, found.1), found.2)

def Fields.readAll (title : String) (read : Nat) : (fields : Fields) → Reader fields.Value
  | .nil => fun text => .ok ((), text)
  | .cons _ shape rest => fun text =>
    match nextItem (read = 0) text with
    | .error e => .error e
    | .ok (false, _) => .error (.data (.invalidLength read title))
    | .ok (true, more) =>
      match shape.read more with
      | .error e => .error e
      | .ok (value, after) =>
        (rest.readAll title (read + 1) after).map fun found => ((value, found.1), found.2)

def Fields.readSome (first : Bool) : (fields : Fields) → Reader fields.Slots
  | .nil => fun text => .ok ((), text)
  | .cons _ shape rest => fun text =>
    match nextItem first text with
    | .error e => .error e
    | .ok (false, more) => .ok ((none, rest.unread), more)
    | .ok (true, more) =>
      match shape.read more with
      | .error e => .error e
      | .ok (value, after) =>
        (rest.readSome false after).map fun found => ((some value, found.1), found.2)

def Variants.readTagged (name : String) (known : List String) :
    (variants : Variants) → Reader variants.Value
  | .nil => fun _ => .error (.data (.unknownVariant name known))
  | .plain own rest => fun text =>
    if name = own then
      match readColon text with
      | .error e => .error e
      | .ok more => (readNull "unit" more).map fun found => (.inl (), found.2)
    else (rest.readTagged name known text).map fun found => (.inr found.1, found.2)
  | .fielded own title fields rest => fun text =>
    if name = own then
      match readColon text with
      | .error e => .error e
      | .ok more =>
        (readRecord title fields (fields.readAll (withCount title fields.count) 0)
          (fields.readMember none) more).map fun found => (.inl found.1, found.2)
    else (rest.readTagged name known text).map fun found => (.inr found.1, found.2)

end

def Shape.readWhole (shape : Shape) (text : List Char) : Except JsonError shape.Value :=
  match shape.read text with
  | .error e => .error e
  | .ok (value, rest) => if (skipSpace rest).isEmpty then .ok value else .error .malformed

end UnitPipeline.Json
