import UnitPipeline.Json.Write

namespace UnitPipeline.Json

-- All texts of the format, as they may be written by hand: with space between the marks,
-- with letters or numbers for characters, and with numbers of any size.

inductive Blank
  | space
  | tab
  | line
  | carriage

def Blank.char : Blank → Char
  | space => ' '
  | tab => '\t'
  | line => '\n'
  | carriage => '\r'

def Gap := List Blank

def Gap.text (gap : Gap) : List Char := gap.map Blank.char

structure HexDigit where
  value : Fin 16
  capital : Bool

def HexDigit.char (d : HexDigit) : Char :=
  if d.capital then (Text.hexDigit d.value).toUpper else Text.hexDigit d.value

structure FourHex where
  first : HexDigit
  second : HexDigit
  third : HexDigit
  fourth : HexDigit

namespace FourHex

def number (h : FourHex) : Nat :=
  ((h.first.value * 16 + h.second.value) * 16 + h.third.value) * 16 + h.fourth.value

def text (h : FourHex) : List Char := [h.first.char, h.second.char, h.third.char, h.fourth.char]

def joined (h other : FourHex) : Char :=
  .ofNat (0x10000 + (h.number - 0xd800) * 0x400 + (other.number - 0xdc00))

end FourHex

inductive Escape
  | quote
  | backslash
  | slash
  | backspace
  | feed
  | line
  | carriage
  | tab

namespace Escape

def char : Escape → Char
  | quote => '"'
  | backslash => '\\'
  | slash => '/'
  | backspace => '\x08'
  | feed => '\x0c'
  | line => '\n'
  | carriage => '\r'
  | tab => '\t'

def letter : Escape → Char
  | quote => '"'
  | backslash => '\\'
  | slash => '/'
  | backspace => 'b'
  | feed => 'f'
  | line => 'n'
  | carriage => 'r'
  | tab => 't'

end Escape

def standsAlone (c : Char) : Bool := 0x20 ≤ c.toNat && c ≠ '"' && c ≠ '\\'

-- What a quoted text is written in. Not all of them are a character: one outside the basic
-- plane takes two numbers.
inductive Piece
  | plain (c : Char) (shown : standsAlone c = true)
  | escape (e : Escape)
  | number (h : FourHex)

def Piece.text : Piece → List Char
  | plain c _ => [c]
  | escape e => ['\\', e.letter]
  | number h => '\\' :: 'u' :: h.text

def spelled : List Piece → Option (List Char)
  | [] => some []
  | .plain c _ :: rest => (spelled rest).map (c :: ·)
  | .escape e :: rest => (spelled rest).map (e.char :: ·)
  | .number h :: rest =>
    if h.number < 0xd800 ∨ 0xdfff < h.number then (spelled rest).map (.ofNat h.number :: ·)
    else
      match rest with
      | .number other :: rest =>
        if h.number < 0xdc00 ∧ 0xdc00 ≤ other.number ∧ other.number ≤ 0xdfff then
          (spelled rest).map (h.joined other :: ·)
        else none
      | _ => none

def quotedText (pieces : List Piece) : List Char := '"' :: (pieces.flatMap Piece.text ++ ['"'])

def decimalDigit (d : Fin 10) : Char := Nat.digitChar d

structure Digits where
  first : Fin 10
  others : List (Fin 10)

def Digits.text (digits : Digits) : List Char := (digits.first :: digits.others).map decimalDigit

inductive Sign
  | plus
  | minus

def Sign.char : Sign → Char
  | plus => '+'
  | minus => '-'

structure Exponent where
  capital : Bool
  sign : Option Sign
  digits : Digits

def Exponent.text (e : Exponent) : List Char :=
  (if e.capital then 'E' else 'e') :: ((e.sign.toList.map Sign.char) ++ e.digits.text)

structure NumberText where
  negative : Bool
  whole : Nat
  fraction : Option Digits
  exponent : Option Exponent

namespace NumberText

def tail (n : NumberText) : List Char :=
  (n.fraction.elim [] fun digits => '.' :: digits.text) ++ n.exponent.elim [] Exponent.text

def text (n : NumberText) : List Char :=
  (if n.negative then ['-'] else []) ++ (writeNat n.whole ++ n.tail)

def word? (n : NumberText) : Option UInt64 :=
  if n.negative = false ∧ n.fraction.isNone ∧ n.exponent.isNone ∧ n.whole < UInt64.size then
    some (.ofNat n.whole)
  else none

end NumberText

-- Values of all kinds. `lead` is the space behind an opening mark.
mutual

inductive Written
  | null
  | flag (on : Bool)
  | number (n : NumberText)
  | quoted (pieces : List Piece)
  | list (lead : Gap) (items : Items)
  | object (lead : Gap) (members : Members)

inductive Items
  | none
  | next (before : Gap) (value : Written) (after : Gap) (rest : Items)

inductive Members
  | none
  | next (before : Gap) (key : List Piece) (behind : Gap) (lead : Gap) (value : Written)
      (after : Gap) (rest : Members)

end

def comma (first : Bool) : List Char := if first then [] else [',']

mutual

def Written.text : Written → List Char
  | .null => "null".toList
  | .flag on => if on then "true".toList else "false".toList
  | .number n => n.text
  | .quoted pieces => quotedText pieces
  | .list lead items => '[' :: (lead.text ++ (items.text true ++ [']']))
  | .object lead members => braced (lead.text ++ members.text true)

def Items.text (first : Bool) : Items → List Char
  | .none => []
  | .next before value after rest =>
    comma first ++ (before.text ++ (value.text ++ (after.text ++ rest.text false)))

def Members.text (first : Bool) : Members → List Char
  | .none => []
  | .next before key behind lead value after rest =>
    comma first ++ (before.text ++ (quotedText key ++ (behind.text ++
      ':' :: (lead.text ++ (value.text ++ (after.text ++ rest.text false))))))

end

namespace Written

def flag? : Written → Option Bool
  | flag on => some on
  | _ => Option.none

def word? : Written → Option UInt64
  | number n => n.word?
  | _ => Option.none

end Written

def Members.entries : Members → List (Option String × Written)
  | .none => []
  | .next _ key _ _ value _ rest => ((spelled key).map String.ofList, value) :: rest.entries

structure ObjectText where
  before : Gap
  lead : Gap
  members : Members
  after : Gap

namespace ObjectText

def text (o : ObjectText) : String :=
  String.ofList (o.before.text ++ ((Written.object o.lead o.members).text ++ o.after.text))

def entries (o : ObjectText) : List (Option String × Written) := o.members.entries

end ObjectText

end UnitPipeline.Json
