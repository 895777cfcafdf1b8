import UnitPipeline.Json.Error
import UnitPipeline.Text.Boundary

namespace UnitPipeline.Json

abbrev Reader (α : Type) := List Char → Except JsonError (α × List Char)

def isSpace (c : Char) : Bool := c = ' ' || c = '\n' || c = '\t' || c = '\r'

def skipSpace (text : List Char) : List Char := text.dropWhile isSpace

def readWord : List Char → List Char → Except JsonError (List Char)
  | [], text => .ok text
  | _ :: _, [] => .error .endedEarly
  | c :: word, d :: rest => if c = d then readWord word rest else .error .malformed

def digitValue (c : Char) : Nat := c.toNat - '0'.toNat

def hexValue? (c : Char) : Option Nat :=
  if c.isDigit then some (digitValue c)
  else if 'a' ≤ c ∧ c ≤ 'f' then some (c.toNat - 'a'.toNat + 10)
  else if 'A' ≤ c ∧ c ≤ 'F' then some (c.toNat - 'A'.toNat + 10)
  else none

-- Four hexadecimal digits. A text of fewer than four bytes ended early, whatever
-- they are.
def readFourHex (text : List Char) : Except JsonError (Nat × List Char) :=
  match text with
  | a :: b :: c :: d :: rest =>
    match hexValue? a, hexValue? b, hexValue? c, hexValue? d with
    | some a, some b, some c, some d => .ok (((a * 16 + b) * 16 + c) * 16 + d, rest)
    | _, _, _, _ => .error .malformed
  | short => if Text.size short < 4 then .error .endedEarly else .error .malformed

def isLeadSurrogate (n : Nat) : Bool := 0xd800 ≤ n && n ≤ 0xdbff

def isTrailSurrogate (n : Nat) : Bool := 0xdc00 ≤ n && n ≤ 0xdfff

def readUnicode (text : List Char) : Except JsonError (Char × List Char) :=
  match readFourHex text with
  | .error e => .error e
  | .ok (lead, rest) =>
    if isTrailSurrogate lead then .error .malformed
    else if isLeadSurrogate lead then
      match rest with
      | [] => .error .endedEarly
      | c :: rest =>
        if c = '\\' then
          match rest with
          | [] => .error .endedEarly
          | d :: rest =>
            if d = 'u' then
              match readFourHex rest with
              | .error e => .error e
              | .ok (trail, rest) =>
                if isTrailSurrogate trail then
                  .ok (.ofNat (0x10000 + (lead - 0xd800) * 0x400 + (trail - 0xdc00)), rest)
                else .error .malformed
            else .error .malformed
        else .error .malformed
    else .ok (.ofNat lead, rest)

def readEscape (text : List Char) : Except JsonError (Char × List Char) :=
  match text with
  | [] => .error .endedEarly
  | c :: rest =>
    match c with
    | '"' => .ok ('"', rest)
    | '\\' => .ok ('\\', rest)
    | '/' => .ok ('/', rest)
    | 'b' => .ok ('\x08', rest)
    | 'f' => .ok ('\x0c', rest)
    | 'n' => .ok ('\n', rest)
    | 'r' => .ok ('\r', rest)
    | 't' => .ok ('\t', rest)
    | 'u' => readUnicode rest
    | _ => .error .malformed

-- In a text that is skipped an escape by number need not name a character.
def skipEscape (text : List Char) : Except JsonError (Char × List Char) :=
  match text with
  | 'u' :: rest => (readFourHex rest).map fun found => ('?', found.2)
  | _ => readEscape text

-- The characters up to the closing quote. Controls have to be escaped. `fuel`
-- bounds the characters, and the length of the text is enough.
def readChars (escape : List Char → Except JsonError (Char × List Char)) :
    Nat → List Char → Except JsonError (List Char × List Char)
  | 0, _ => .error .endedEarly
  | _ + 1, [] => .error .endedEarly
  | fuel + 1, c :: rest =>
    if c = '"' then .ok ([], rest)
    else if c = '\\' then
      match escape rest with
      | .error e => .error e
      | .ok (d, later) =>
        (readChars escape fuel later).map fun found => (d :: found.1, found.2)
    else if c.toNat < 0x20 then .error .malformed
    else (readChars escape fuel rest).map fun found => (c :: found.1, found.2)

def readQuoted : Reader (List Char) := fun text => readChars readEscape (text.length + 1) text

def skipQuoted (text : List Char) : Except JsonError (List Char) :=
  (readChars skipEscape (text.length + 1) text).map (·.2)

inductive Numeral
  | unsigned (value : Nat)
  | negative (size : Nat)
  | real (negative : Bool) (size : Binary64)
  deriving DecidableEq, Repr

def Numeral.found : Numeral → Found
  | unsigned value => .integer value
  | negative size => .integer (-(size : Int))
  | real below size => .real below size

def wordLimit : Nat := UInt64.size

def negativeLimit : Nat := UInt64.size / 2

def exponentLimit : Nat := UInt32.size / 2

def takeDigits (value count : Nat) : List Char → Nat × Nat × List Char
  | [] => (value, count, [])
  | c :: rest =>
    if c.isDigit then
      let next := value * 10 + digitValue c
      if next < wordLimit then takeDigits next (count + 1) rest else (value, count, c :: rest)
    else (value, count, c :: rest)

def dropDigits (text : List Char) : List Char := text.dropWhile Char.isDigit

def takeExponent (value : Nat) : List Char → Nat × Bool × List Char
  | [] => (value, true, [])
  | c :: rest =>
    if c.isDigit then
      let next := value * 10 + digitValue c
      if next < exponentLimit then takeExponent next rest else (value, false, dropDigits rest)
    else (value, true, c :: rest)

def finishReal (negative : Bool) (significand : Nat) (exponent : Int) (rest : List Char) :
    Except JsonError (Numeral × List Char) :=
  match Binary64.ofParts significand exponent with
  | some size => .ok (.real negative size, rest)
  | none => .error .malformed

-- The exponent of a number, its letter having been seen. One that does not fit
-- makes a number too large or zero.
def readExponent (negative : Bool) (significand : Nat) (before : Int) (text : List Char) :
    Except JsonError (Numeral × List Char) :=
  let (down, text) := match text with
    | '+' :: rest => (false, rest)
    | '-' :: rest => (true, rest)
    | _ => (false, text)
  match text with
  | [] => .error .endedEarly
  | c :: rest =>
    if c.isDigit then
      match takeExponent (digitValue c) rest with
      | (value, true, rest) =>
        finishReal negative significand (if down then before - value else before + value) rest
      | (_, false, rest) =>
        if significand ≠ 0 ∧ !down then .error .malformed
        else .ok (.real negative .zero, rest)
    else .error .malformed

def isExponentMark (c : Char) : Bool := c = 'e' || c = 'E'

def readPlaces (negative : Bool) (significand : Nat) (before : Int) (text : List Char) :
    Except JsonError (Numeral × List Char) :=
  let (value, count, rest) := takeDigits significand 0 text
  let exponent := before - count
  match rest with
  | [] => if count = 0 then .error .endedEarly else finishReal negative value exponent []
  | c :: more =>
    if c.isDigit then
      match dropDigits rest with
      | [] => finishReal negative value exponent []
      | d :: later =>
        if isExponentMark d then readExponent negative value exponent later
        else finishReal negative value exponent (d :: later)
    else if count = 0 then .error .malformed
    else if isExponentMark c then readExponent negative value exponent more
    else finishReal negative value exponent rest

def readTail (negative : Bool) (significand : Nat) (text : List Char) :
    Except JsonError (Numeral × List Char) :=
  let dropped := text.takeWhile Char.isDigit
  let rest := text.dropWhile Char.isDigit
  let integer : Numeral :=
    if dropped ≠ [] then .unsigned significand
    else if negative then .negative significand
    else .unsigned significand
  match rest with
  | '.' :: more => readPlaces negative significand dropped.length more
  | c :: more =>
    if isExponentMark c then readExponent negative significand dropped.length more
    else if dropped ≠ [] ∨ (negative ∧ (significand = 0 ∨ negativeLimit < significand)) then
      finishReal negative significand dropped.length rest
    else .ok (integer, rest)
  | [] =>
    if dropped ≠ [] ∨ (negative ∧ (significand = 0 ∨ negativeLimit < significand)) then
      finishReal negative significand dropped.length []
    else .ok (integer, [])

def readNumeral (negative : Bool) (text : List Char) :
    Except JsonError (Numeral × List Char) :=
  match text with
  | [] => .error .endedEarly
  | c :: rest =>
    if c = '0' then
      match rest with
      | d :: _ => if d.isDigit then .error .malformed else readTail negative 0 rest
      | [] => readTail negative 0 rest
    else if c.isDigit then
      let (value, _, rest) := takeDigits (digitValue c) 1 rest
      readTail negative value rest
    else .error .malformed

-- Digits that are skipped, at least one. It is no early end if there are none.
def skipPlaces (text : List Char) : Except JsonError (List Char) :=
  match text with
  | [] => .error .malformed
  | c :: _ => if c.isDigit then .ok (dropDigits text) else .error .malformed

def skipExponent (text : List Char) : Except JsonError (List Char) :=
  match text with
  | [] => .ok []
  | c :: rest =>
    if isExponentMark c then
      match rest with
      | '+' :: more | '-' :: more => skipPlaces more
      | _ => skipPlaces rest
    else .ok text

def skipFraction (text : List Char) : Except JsonError (List Char) :=
  match text with
  | '.' :: rest => (skipPlaces rest).bind skipExponent
  | _ => skipExponent text

def skipNumeral (text : List Char) : Except JsonError (List Char) :=
  match text with
  | '0' :: rest =>
    match rest with
    | d :: _ => if d.isDigit then .error .malformed else skipFraction rest
    | [] => .ok []
  | _ => (skipPlaces text).bind skipFraction

mutual

def skipValueIn : Nat → List Char → Except JsonError (List Char)
  | 0, _ => .error .endedEarly
  | fuel + 1, text =>
    match skipSpace text with
    | [] => .error .endedEarly
    | c :: rest =>
      if c = 'n' then readWord "ull".toList rest
      else if c = 't' then readWord "rue".toList rest
      else if c = 'f' then readWord "alse".toList rest
      else if c = '"' then skipQuoted rest
      else if c = '-' then skipNumeral rest
      else if c.isDigit then skipNumeral (c :: rest)
      else if c = '[' then skipItems fuel true rest
      else if c = '\x7b' then skipMembers fuel true rest
      else .error .malformed

def skipItems : Nat → Bool → List Char → Except JsonError (List Char)
  | 0, _, _ => .error .endedEarly
  | fuel + 1, first, text =>
    match skipSpace text with
    | [] => .error .endedEarly
    | c :: rest =>
      if c = ']' then .ok rest
      else if first then (skipValueIn fuel (c :: rest)).bind (skipItems fuel false)
      else if c = ',' then (skipValueIn fuel rest).bind (skipItems fuel false)
      else .error .malformed

def skipMembers : Nat → Bool → List Char → Except JsonError (List Char)
  | 0, _, _ => .error .endedEarly
  | fuel + 1, first, text =>
    match skipSpace text with
    | [] => .error .endedEarly
    | c :: rest =>
      if c = '\x7d' then .ok rest
      else if first then skipMember fuel (c :: rest)
      else if c = ',' then skipMember fuel rest
      else .error .malformed

def skipMember : Nat → List Char → Except JsonError (List Char)
  | 0, _ => .error .endedEarly
  | fuel + 1, text =>
    match skipSpace text with
    | [] => .error .endedEarly
    | c :: rest =>
      if c = '"' then
        match skipQuoted rest with
        | .error e => .error e
        | .ok more =>
          match skipSpace more with
          | [] => .error .endedEarly
          | d :: value =>
            if d = ':' then (skipValueIn fuel value).bind (skipMembers fuel false)
            else .error .malformed
      else .error .malformed

end

-- No value takes more than three steps a character.
def skipValue (text : List Char) : Except JsonError (List Char) :=
  skipValueIn (3 * text.length + 3) text

end UnitPipeline.Json
